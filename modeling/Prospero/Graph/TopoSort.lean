import Prospero.Graph.Built
import Mathlib.Order.WellFounded
import Mathlib.Data.Fintype.EquivFin

/-!
# The topological sort

`pai_graph_topo_sort` counts, for each op, the inputs that some other op produces, and takes the ops whose
count has come down to zero.  The count is by occurrences: an op that lists a value three times waits three
times for it, and the loop over the inputs takes the three away again.

### Outline

* `Graph.Feeds` is the relation from producers to consumers, read from the op lists alone.
* `Kahn.useOutput_spec` is what the three inner loops do for one output: every count drops by the number
  of occurrences, and the ops whose count ends at zero enter the queue, each once.
* `Kahn.Waits` ties the counts to the values announced so far; `Kahn.Sound` adds that the order so far
  respects `Graph.Feeds`, and holds in every round (`Graph.Built.kahn_sound`).
* When the queue is empty an op outside the order has a producer outside the order.  On finitely many ops
  this needs a cycle (`Graph.Built.kahn_complete`).
* `Graph.kahn?` is the same sort with a queue that refuses a write past `PAI_GRAPH_MAX_OPS`.
-/

namespace Prospero

/-! ## The relation and the epochs -/

/-- Op `c` consumes a value that op `p` produces. -/
def Graph.Feeds (graph : Graph) (p c : ℕ) : Prop :=
  ∃ producer consumer v, graph.op? p = some producer ∧ graph.op? c = some consumer ∧
    v ∈ producer.outputs ∧ v ∈ consumer.inputs

/-- No op depends on itself, however indirectly. -/
def Graph.Acyclic (graph : Graph) : Prop := ∀ o, ¬ Relation.TransGen graph.Feeds o o

/-- `graph->ops[id].epoch`. -/
def Graph.epoch (graph : Graph) (o : ℕ) : ℕ :=
  match graph.op? o with
  | some op => op.epoch
  | none => 0

/-- In a built graph the recorded producers are the relation. -/
lemma Graph.Built.feeds_iff {graph : Graph} (h : graph.Built) {p c : ℕ} :
    graph.Feeds p c ↔ p ≠ 0 ∧ ∃ op, graph.op? c = some op ∧ ∃ v ∈ op.inputs, graph.producer v = p := by
  constructor
  · rintro ⟨producer, consumer, v, hp, hc, hout, hin⟩
    have hpos := (Graph.op?_eq_some hp).1
    exact ⟨by omega, consumer, hc, v, hin, h.producer_of_output p producer hp v hout⟩
  · rintro ⟨hp, op, hc, v, hin, rfl⟩
    obtain ⟨producer, hproducer, hout⟩ := h.output_of_producer v hp
    exact ⟨producer, op, v, hproducer, hc, hout, hin⟩

/-- The op ids are the ids with an op. -/
lemma Graph.mem_opIds {graph : Graph} {o : ℕ} :
    o ∈ graph.opIds ↔ 1 ≤ o ∧ o ≤ graph.ops.length := by
  rw [Graph.opIds, List.mem_range'_1]
  omega

lemma Graph.mem_opIds_iff_op? {graph : Graph} {o : ℕ} :
    o ∈ graph.opIds ↔ ∃ op, graph.op? o = some op := by
  rw [Graph.mem_opIds]
  constructor
  · exact fun ho => Graph.op?_of_le ho.1 ho.2
  · rintro ⟨op, hop⟩
    obtain ⟨h1, h2, -⟩ := Graph.op?_eq_some hop
    exact ⟨h1, h2⟩

lemma Graph.opIds_nodup (graph : Graph) : graph.opIds.Nodup := List.nodup_range'

lemma Graph.length_opIds (graph : Graph) : graph.opIds.length = graph.ops.length :=
  List.length_range'

/-! ## Announcing one output -/

/-- How often op `c` lists the value `v`. -/
def Graph.uses (graph : Graph) (v c : ℕ) : ℕ :=
  match graph.op? c with
  | some op => op.inputs.count v
  | none => 0

/-- One occurrence of the announced value. -/
lemma Kahn.useInput_self {c : ℕ} (v : ℕ) {k : Kahn} (hpos : 0 < (k.indegree c).toNat) :
    ((Kahn.useInput v c k v).indegree c).toNat = (k.indegree c).toNat - 1 ∧
    (∀ d, d ≠ c → (Kahn.useInput v c k v).indegree d = k.indegree d) ∧
    (Kahn.useInput v c k v).order = k.order ∧
    (Kahn.useInput v c k v).queue =
      if (k.indegree c).toNat = 1 then k.queue ++ [c] else k.queue := by
  have hsub : (k.indegree c - 1).toNat = (k.indegree c).toNat - 1 :=
    UInt32.toNat_sub_of_le _ _ (UInt32.le_iff_toNat_le.mpr hpos)
  have hzero : k.indegree c - 1 = 0 ↔ (k.indegree c).toNat = 1 := by
    rw [← UInt32.toNat_inj, hsub, UInt32.toNat_zero]
    omega
  rw [show Kahn.useInput v c k v =
    { k with
      indegree := Function.update k.indegree c (k.indegree c - 1)
      queue := if k.indegree c - 1 = 0 then k.queue ++ [c] else k.queue } from if_pos rfl]
  refine ⟨?_, fun d hd => Function.update_of_ne hd _ _, rfl, if_congr hzero rfl rfl⟩
  simp only [Function.update_self]
  exact hsub

/-- The loop over the inputs of one op: the count drops by the occurrences of `v`, and the op is queued
when this makes it zero. -/
lemma Kahn.foldl_useInput {v c : ℕ} (ws : List ℕ) (k : Kahn)
    (hle : ws.count v ≤ (k.indegree c).toNat) :
    ((ws.foldl (Kahn.useInput v c) k).indegree c).toNat = (k.indegree c).toNat - ws.count v ∧
    (∀ d, d ≠ c → (ws.foldl (Kahn.useInput v c) k).indegree d = k.indegree d) ∧
    (ws.foldl (Kahn.useInput v c) k).order = k.order ∧
    (ws.foldl (Kahn.useInput v c) k).queue = k.queue ++
      if 0 < ws.count v ∧ (k.indegree c).toNat = ws.count v then [c] else [] := by
  induction ws generalizing k with
  | nil => simp
  | cons w ws ih =>
    rw [List.foldl_cons]
    by_cases hw : w = v
    · subst hw
      rw [List.count_cons_self] at hle ⊢
      obtain ⟨hself, hother, hsame, hqueued⟩ := @Kahn.useInput_self c w k (by omega)
      obtain ⟨hc, hd, horder, hqueue⟩ := ih (Kahn.useInput w c k w) (by rw [hself]; omega)
      refine ⟨by rw [hc, hself]; omega, fun d hne => (hd d hne).trans (hother d hne),
        horder.trans hsame, ?_⟩
      simp only [hqueue, hself, hqueued]
      by_cases hone : (k.indegree c).toNat = 1
      · -- the count is spent here, so the rest of the inputs has no further occurrence
        rw [if_pos hone, if_neg (by omega), if_pos (by omega), List.append_nil]
      · rw [if_neg hone]
        congr 1
        exact if_congr (by omega) rfl rfl
    · rw [show Kahn.useInput v c k w = k from if_neg hw]
      rw [List.count_cons_of_ne hw] at hle ⊢
      exact ih k hle

/-- One op against the output `v`, which op `o` itself does not consume. -/
lemma Kahn.useOp_spec {graph : Graph} {o v : ℕ} (ho : graph.uses v o = 0) (k : Kahn) (c : ℕ)
    (hle : graph.uses v c ≤ (k.indegree c).toNat) :
    ((k.useOp graph o v c).indegree c).toNat = (k.indegree c).toNat - graph.uses v c ∧
    (∀ d, d ≠ c → (k.useOp graph o v c).indegree d = k.indegree d) ∧
    (k.useOp graph o v c).order = k.order ∧
    (k.useOp graph o v c).queue = k.queue ++
      if 0 < graph.uses v c ∧ (k.indegree c).toNat = graph.uses v c then [c] else [] := by
  unfold Kahn.useOp
  by_cases hc : c = o
  · rw [if_pos hc, hc, ho]
    simp
  rw [if_neg hc]
  unfold Graph.uses at hle ⊢
  cases hop : graph.op? c with
  | none => simp
  | some op =>
    rw [hop] at hle
    exact Kahn.foldl_useInput op.inputs k hle

/-- The loop over the ops: every count drops, and the ops that reach zero are queued in id order. -/
lemma Kahn.foldl_useOp {graph : Graph} {o v : ℕ} (ho : graph.uses v o = 0) {cs : List ℕ}
    (hcs : cs.Nodup) (k : Kahn) (hle : ∀ c ∈ cs, graph.uses v c ≤ (k.indegree c).toNat) :
    (∀ c, ((cs.foldl (Kahn.useOp graph o v) k).indegree c).toNat =
      (k.indegree c).toNat - if c ∈ cs then graph.uses v c else 0) ∧
    (cs.foldl (Kahn.useOp graph o v) k).order = k.order ∧
    (cs.foldl (Kahn.useOp graph o v) k).queue = k.queue ++
      cs.filter fun c => 0 < graph.uses v c ∧ (k.indegree c).toNat = graph.uses v c := by
  induction cs generalizing k with
  | nil => simp
  | cons c cs ih =>
    obtain ⟨hnotin, hcs⟩ := List.nodup_cons.mp hcs
    obtain ⟨hself, hother, horder, hqueue⟩ := Kahn.useOp_spec ho k c (hle c List.mem_cons_self)
    have hkeep : ∀ d ∈ cs, (k.useOp graph o v c).indegree d = k.indegree d :=
      fun d hd => hother d fun heq => hnotin (heq ▸ hd)
    obtain ⟨hcount, horder', hqueue'⟩ := ih hcs (k.useOp graph o v c) fun d hd => by
      rw [hkeep d hd]
      exact hle d (List.mem_cons_of_mem c hd)
    rw [List.foldl_cons]
    refine ⟨fun d => ?_, horder'.trans horder, ?_⟩
    · rw [hcount d]
      by_cases hd : d = c
      · subst hd
        rw [hself, if_neg hnotin, if_pos List.mem_cons_self, Nat.sub_zero]
      · rw [hother d hd]
        congr 1
        exact if_congr (by simp [hd]) rfl rfl
    · have hfilter : (cs.filter fun d => 0 < graph.uses v d ∧
          ((k.useOp graph o v c).indegree d).toNat = graph.uses v d) =
          cs.filter fun d => 0 < graph.uses v d ∧ (k.indegree d).toNat = graph.uses v d :=
        List.filter_congr fun d hd => by rw [hkeep d hd]
      rw [hqueue', hqueue, hfilter, List.append_assoc, List.filter_cons]
      congr 1
      by_cases hzero : 0 < graph.uses v c ∧ (k.indegree c).toNat = graph.uses v c
      · rw [if_pos hzero, if_pos (decide_eq_true hzero)]
        rfl
      · rw [if_neg hzero, if_neg (by simpa using hzero)]
        rfl

/-! ## The counts -/

/-- The inputs of op `c` that some op produces and that have not been announced. -/
def Graph.waiting (graph : Graph) (told : List ℕ) (c : ℕ) : ℕ :=
  match graph.op? c with
  | some op => op.inputs.countP fun w => graph.producer w != 0 && !told.contains w
  | none => 0

/-- Announcing a value takes its occurrences away. -/
lemma Graph.waiting_cons {graph : Graph} {told : List ℕ} {v : ℕ} (hv : graph.producer v ≠ 0)
    (hnew : v ∉ told) (c : ℕ) :
    graph.waiting told c = graph.waiting (v :: told) c + graph.uses v c := by
  unfold Graph.waiting Graph.uses
  cases graph.op? c with
  | none => rfl
  | some op =>
    simp only
    induction op.inputs with
    | nil => rfl
    | cons w ws ih =>
      by_cases hw : w = v
      · subst hw
        have hold : (graph.producer w != 0 && !told.contains w) = true := by simp [hv, hnew]
        have hnow : ¬ (graph.producer w != 0 && !(w :: told).contains w) = true := by simp
        simp only [List.countP_cons]
        rw [if_pos hold, if_neg hnow, List.count_cons_self, ih]
        omega
      · have hsame : (!(v :: told).contains w) = !told.contains w := by simp [hw]
        simp only [List.countP_cons]
        rw [List.count_cons_of_ne hw, hsame, ih]
        omega

/-- An op waits for nothing exactly when every produced input has been announced. -/
lemma Graph.waiting_eq_zero {graph : Graph} {told : List ℕ} {c : ℕ} {op : GraphOp}
    (hop : graph.op? c = some op) :
    graph.waiting told c = 0 ↔ ∀ w ∈ op.inputs, graph.producer w ≠ 0 → w ∈ told := by
  simp only [Graph.waiting, hop, List.countP_eq_zero, Bool.and_eq_true, bne_iff_ne,
    Bool.not_eq_true', not_and, Bool.not_eq_false, List.contains_iff_mem]

/-- The counts the loop starts from: an op is never the producer of its own input, so the second test of
the counting loop never excludes anything, and at most `PAI_GRAPH_MAX_ARITY` inputs are counted. -/
lemma Graph.Built.indegree_eq {graph : Graph} (h : graph.Built) (c : ℕ) :
    (graph.indegree c).toNat = graph.waiting [] c := by
  unfold Graph.indegree Graph.waiting
  cases hop : graph.op? c with
  | none => rfl
  | some op =>
    have hwf := h.op_wf hop
    have hsame : (op.inputs.countP fun v => graph.producer v != 0 && graph.producer v != c) =
        op.inputs.countP fun w => graph.producer w != 0 && !([] : List ℕ).contains w := by
      refine List.countP_congr fun v hv => ?_
      simp only [Bool.and_eq_true, bne_iff_ne, List.contains_nil, Bool.not_false, and_true,
        and_iff_left_iff_imp]
      intro hne heq
      obtain ⟨op', hop', hout⟩ := h.output_of_producer v hne
      rw [heq, hop] at hop'
      obtain rfl := Option.some.inj hop'
      exact hwf.inputs_disjoint v hv hout
    have hbound : (op.inputs.countP fun v => graph.producer v != 0 && graph.producer v != c) ≤ 16 :=
      List.countP_le_length.trans hwf.inputs_le
    simp only
    rw [UInt32.toNat_ofNat_of_lt' (by rw [UInt32.size]; omega), hsame]

/-- The counts stand for the values announced so far, and the ops that wait for nothing are those queued
or taken. -/
structure Kahn.Waits (graph : Graph) (told : List ℕ) (k : Kahn) : Prop where
  /-- The counts. -/
  indegree_eq : ∀ c ∈ graph.opIds, (k.indegree c).toNat = graph.waiting told c
  /-- An op is queued once. -/
  nodup : (k.order ++ k.queue).Nodup
  /-- The ops that wait for nothing. -/
  mem_iff : ∀ c, c ∈ k.order ++ k.queue ↔ c ∈ graph.opIds ∧ graph.waiting told c = 0

/-- Announcing one output of op `o`. -/
lemma Kahn.Waits.useOutput {graph : Graph} {told : List ℕ} {k : Kahn} (hk : k.Waits graph told)
    {o v : ℕ} (hown : graph.uses v o = 0) (hv : graph.producer v ≠ 0) (hnew : v ∉ told) :
    (k.useOutput graph o v).Waits graph (v :: told) ∧ (k.useOutput graph o v).order = k.order := by
  have hcons := Graph.waiting_cons hv hnew
  obtain ⟨hcount, horder, hqueue⟩ := Kahn.foldl_useOp hown graph.opIds_nodup k fun c hc => by
    rw [hk.indegree_eq c hc, hcons c]
    exact Nat.le_add_left _ _
  change ∀ c, ((k.useOutput graph o v).indegree c).toNat = _ at hcount
  change (k.useOutput graph o v).order = _ at horder
  change (k.useOutput graph o v).queue = _ at hqueue
  set fresh := graph.opIds.filter fun c => 0 < graph.uses v c ∧
    (k.indegree c).toNat = graph.uses v c with hfresh
  have hlist : (k.useOutput graph o v).order ++ (k.useOutput graph o v).queue =
      (k.order ++ k.queue) ++ fresh := by
    rw [horder, hqueue, List.append_assoc]
  have hmem : ∀ c, c ∈ fresh ↔
      c ∈ graph.opIds ∧ 0 < graph.uses v c ∧ graph.waiting told c = graph.uses v c := by
    intro c
    rw [hfresh, List.mem_filter, decide_eq_true_iff]
    refine and_congr_right fun hc => ?_
    rw [hk.indegree_eq c hc]
  refine ⟨⟨?_, ?_, ?_⟩, horder⟩
  · intro c hc
    rw [hcount c, if_pos hc, hk.indegree_eq c hc, hcons c]
    omega
  · rw [hlist]
    refine hk.nodup.append (graph.opIds_nodup.filter _) ?_
    intro c hold hc
    have hzero := ((hk.mem_iff c).mp hold).2
    have hpos := ((hmem c).mp hc).2
    omega
  · intro c
    rw [hlist, List.mem_append, hk.mem_iff c, hmem c, ← and_or_left]
    refine and_congr_right fun _ => ?_
    rw [hcons c]
    omega

/-- Announcing several outputs of op `o`. -/
lemma Kahn.Waits.foldl_useOutput {graph : Graph} {o : ℕ} (outputs : List ℕ) {told : List ℕ} {k : Kahn}
    (hk : k.Waits graph told) (hout : ∀ v ∈ outputs, graph.uses v o = 0 ∧ graph.producer v ≠ 0)
    (hnodup : outputs.Nodup) (hnew : ∀ v ∈ outputs, v ∉ told) :
    ∃ told', (∀ w, w ∈ told' ↔ w ∈ outputs ∨ w ∈ told) ∧
      (outputs.foldl (Kahn.useOutput graph o) k).Waits graph told' ∧
      (outputs.foldl (Kahn.useOutput graph o) k).order = k.order := by
  induction outputs generalizing told k with
  | nil => exact ⟨told, fun w => by simp, hk, rfl⟩
  | cons v vs ih =>
    obtain ⟨hnotin, hnodup⟩ := List.nodup_cons.mp hnodup
    obtain ⟨hown, hv⟩ := hout v List.mem_cons_self
    obtain ⟨hk', horder⟩ := hk.useOutput hown hv (hnew v List.mem_cons_self)
    obtain ⟨told', htold, hwaits, horder'⟩ := ih hk'
      (fun w hw => hout w (List.mem_cons_of_mem v hw)) hnodup fun w hw hmem => by
        rcases List.mem_cons.mp hmem with rfl | hmem
        · exact hnotin hw
        · exact hnew w (List.mem_cons_of_mem v hw) hmem
    refine ⟨told', fun w => ?_, hwaits, horder'.trans horder⟩
    rw [htold w, List.mem_cons, List.mem_cons]
    tauto

/-! ## The rounds -/

/-- What holds before every round. -/
structure Kahn.Sound (graph : Graph) (k : Kahn) : Prop where
  /-- The announced values are the outputs of the ops taken. -/
  waits : ∃ told, (∀ w, graph.producer w ≠ 0 → (w ∈ told ↔ graph.producer w ∈ k.order)) ∧
    k.Waits graph told
  /-- Producers are taken before their consumers. -/
  before : ∀ p c, graph.Feeds p c → c ∈ k.order →
    p ∈ k.order ∧ k.order.idxOf p < k.order.idxOf c

lemma Graph.Built.kahn_init {graph : Graph} (h : graph.Built) : (Kahn.init graph).Sound graph := by
  refine ⟨⟨[], fun w _ => ?_, fun c _ => h.indegree_eq c, ?_, fun c => ?_⟩, fun p c _ hc => ?_⟩
  · exact iff_of_false List.not_mem_nil List.not_mem_nil
  · exact graph.opIds_nodup.filter _
  · change c ∈ [] ++ graph.opIds.filter (fun o => graph.indegree o == 0) ↔ _
    rw [List.nil_append, List.mem_filter, beq_iff_eq, ← UInt32.toNat_inj, h.indegree_eq c]
    rfl
  · exact absurd hc List.not_mem_nil

/-- One round: the op at the head of the queue waits for nothing, so its producers have been taken. -/
lemma Kahn.Sound.take {graph : Graph} (h : graph.Built) {k : Kahn} (hk : k.Sound graph) {o : ℕ}
    {rest : List ℕ} (hqueue : k.queue = o :: rest) :
    (k.take graph o rest).Sound graph ∧ (k.take graph o rest).order = k.order ++ [o] := by
  obtain ⟨told, htold, hwaits⟩ := hk.waits
  have hsplit : k.order ++ k.queue = (k.order ++ [o]) ++ rest := by
    rw [hqueue, List.append_assoc, List.singleton_append]
  have hnodup := hwaits.nodup
  have hmem := hwaits.mem_iff
  rw [hsplit] at hnodup hmem
  have hfirst : o ∈ graph.opIds ∧ graph.waiting told o = 0 := (hmem o).mp (by simp)
  obtain ⟨op, hop⟩ := Graph.mem_opIds_iff_op?.mp hfirst.1
  have hwf := h.op_wf hop
  have hpos := (Graph.op?_eq_some hop).1
  have hfresh : o ∉ k.order := by
    have hne := (List.nodup_append.mp (List.nodup_append.mp hnodup).1).2.2
    exact fun ho => hne o ho o List.mem_cons_self rfl
  have hproducer : ∀ v ∈ op.outputs, graph.producer v = o := h.producer_of_output o op hop
  obtain ⟨told', htold', hwaits', horder⟩ := @Kahn.Waits.foldl_useOutput graph o op.outputs told
    { k with queue := rest, order := k.order ++ [o] }
    ⟨hwaits.indegree_eq, hnodup, hmem⟩
    (fun v hv => by
      refine ⟨?_, by rw [hproducer v hv]; omega⟩
      simp only [Graph.uses, hop]
      exact List.count_eq_zero.mpr fun hin => hwf.inputs_disjoint v hin hv)
    hwf.outputs_nodup
    (fun v hv hin => by
      have hne : graph.producer v ≠ 0 := by rw [hproducer v hv]; omega
      exact hfresh (hproducer v hv ▸ (htold v hne).mp hin))
  have htake : k.take graph o rest = op.outputs.foldl (Kahn.useOutput graph o)
      { k with queue := rest, order := k.order ++ [o] } := by
    simp only [Kahn.take, hop]
  rw [htake]
  refine ⟨⟨⟨told', fun w hw => ?_, hwaits'⟩, fun p c hfeeds hc => ?_⟩, horder⟩
  · rw [htold' w, horder, List.mem_append, List.mem_singleton, htold w hw]
    constructor
    · rintro (hout | hin)
      · exact Or.inr (hproducer w hout)
      · exact Or.inl hin
    · rintro (hin | heq)
      · exact Or.inr hin
      · obtain ⟨op', hop', hout⟩ := h.output_of_producer w hw
        rw [heq, hop] at hop'
        obtain rfl := Option.some.inj hop'
        exact Or.inl hout
  · rw [horder] at hc ⊢
    simp only at hc ⊢
    rcases List.mem_append.mp hc with hc | hc
    · obtain ⟨hp, hlt⟩ := hk.before p c hfeeds hc
      rw [List.idxOf_append_of_mem hp, List.idxOf_append_of_mem hc]
      exact ⟨List.mem_append_left _ hp, hlt⟩
    · obtain rfl := List.mem_singleton.mp hc
      obtain ⟨hp0, op', hop', v, hv, rfl⟩ := h.feeds_iff.mp hfeeds
      rw [hop] at hop'
      obtain rfl := Option.some.inj hop'
      have hin : v ∈ told := (Graph.waiting_eq_zero hop).mp hfirst.2 v hv hp0
      have hp := (htold v hp0).mp hin
      rw [List.idxOf_append_of_mem hp, List.idxOf_append_of_notMem hfresh]
      exact ⟨List.mem_append_left _ hp,
        (List.idxOf_lt_length_of_mem hp).trans_le (Nat.le_add_right _ _)⟩

/-- The ops queued or taken are distinct ops. -/
lemma Kahn.Sound.length_le {graph : Graph} {k : Kahn} (hk : k.Sound graph) :
    k.order.length + k.queue.length ≤ graph.ops.length := by
  obtain ⟨told, -, hwaits⟩ := hk.waits
  have hsub : (k.order ++ k.queue) ⊆ graph.opIds := fun c hc => ((hwaits.mem_iff c).mp hc).1
  have hle := (List.subperm_of_subset hwaits.nodup hsub).length_le
  rwa [List.length_append, graph.length_opIds] at hle

/-- As many rounds as ops are left empty the queue. -/
lemma Graph.Built.loop_sound {graph : Graph} (h : graph.Built) (fuel : ℕ) {k : Kahn}
    (hk : k.Sound graph) (hfuel : k.order.length + fuel = graph.ops.length) :
    (Kahn.loop graph fuel k).Sound graph ∧ (Kahn.loop graph fuel k).queue = [] := by
  induction fuel generalizing k with
  | zero =>
    have hle := hk.length_le
    exact ⟨hk, List.eq_nil_of_length_eq_zero (by change k.queue.length = 0; omega)⟩
  | succ fuel ih =>
    rw [Kahn.loop]
    cases hqueue : k.queue with
    | nil => exact ⟨hk, hqueue⟩
    | cons o rest =>
      obtain ⟨hk', horder⟩ := hk.take h hqueue
      refine ih hk' ?_
      rw [horder, List.length_append, List.length_singleton]
      omega

lemma Graph.Built.kahn_sound {graph : Graph} (h : graph.Built) :
    graph.kahn.Sound graph ∧ graph.kahn.queue = [] :=
  h.loop_sound graph.ops.length h.kahn_init (Nat.zero_add _)

/-! ## Complete orders -/

/-- The order holds every op exactly when it is as long as the table of ops. -/
lemma Graph.Built.kahn_order {graph : Graph} (h : graph.Built) :
    graph.kahn.order.Nodup ∧ (∀ c ∈ graph.kahn.order, c ∈ graph.opIds) ∧
      (graph.kahn.order.length = graph.ops.length → ∀ c ∈ graph.opIds, c ∈ graph.kahn.order) := by
  obtain ⟨hk, hqueue⟩ := h.kahn_sound
  obtain ⟨told, -, hwaits⟩ := hk.waits
  have hnodup := hwaits.nodup
  have hmem := hwaits.mem_iff
  rw [hqueue, List.append_nil] at hnodup hmem
  have hsub : graph.kahn.order ⊆ graph.opIds := fun c hc => ((hmem c).mp hc).1
  refine ⟨hnodup, hsub, fun hlen c hc => ?_⟩
  have hperm := (List.subperm_of_subset hnodup hsub).perm_of_length_le
    (by rw [graph.length_opIds, hlen])
  exact hperm.mem_iff.mpr hc

/-- An op outside the order waits for a producer outside the order. -/
lemma Graph.Built.kahn_waits {graph : Graph} (h : graph.Built) {c : ℕ} (hc : c ∈ graph.opIds)
    (hout : c ∉ graph.kahn.order) :
    ∃ p ∈ graph.opIds, p ∉ graph.kahn.order ∧ graph.Feeds p c := by
  obtain ⟨hk, hqueue⟩ := h.kahn_sound
  obtain ⟨told, htold, hwaits⟩ := hk.waits
  have hmem := hwaits.mem_iff c
  rw [hqueue, List.append_nil] at hmem
  obtain ⟨op, hop⟩ := Graph.mem_opIds_iff_op?.mp hc
  have hwaiting : graph.waiting told c ≠ 0 := fun hzero => hout (hmem.mpr ⟨hc, hzero⟩)
  rw [Ne, Graph.waiting_eq_zero hop] at hwaiting
  push Not at hwaiting
  obtain ⟨w, hw, hproducer, hnot⟩ := hwaiting
  obtain ⟨op', hop', -⟩ := h.output_of_producer w hproducer
  exact ⟨graph.producer w, Graph.mem_opIds_iff_op?.mpr ⟨op', hop'⟩,
    fun hin => hnot ((htold w hproducer).mpr hin), h.feeds_iff.mpr ⟨hproducer, op, hop, w, hw, rfl⟩⟩

/-- A relation without cycles has a first element in every nonempty finite set. -/
lemma exists_first_of_acyclic {α : Type*} {r : α → α → Prop}
    (hacyclic : ∀ a, ¬ Relation.TransGen r a a) {s : Finset α} (hs : s.Nonempty) :
    ∃ m ∈ s, ∀ a ∈ s, ¬ r a m := by
  let below : s → s → Prop := fun a b => Relation.TransGen r a b
  have : IsTrans s below := ⟨fun _ _ _ hab hbc => hab.trans hbc⟩
  have : Std.Irrefl below := ⟨fun a => hacyclic a⟩
  have hwf : WellFounded below := Finite.wellFounded_of_trans_of_irrefl below
  obtain ⟨m, -, hm⟩ := hwf.has_min Set.univ ⟨⟨hs.choose, hs.choose_spec⟩, trivial⟩
  exact ⟨m, m.2, fun a ha hr => hm ⟨a, ha⟩ trivial (Relation.TransGen.single hr)⟩

/-- Every op is taken exactly when the relation has no cycle. -/
lemma Graph.Built.kahn_complete {graph : Graph} (h : graph.Built) :
    graph.kahn.order.length = graph.ops.length ↔ graph.Acyclic := by
  obtain ⟨hnodup, hsub, hall⟩ := h.kahn_order
  constructor
  · intro hlen o hcycle
    have hbefore := h.kahn_sound.1.before
    -- positions in the order increase along the relation
    have hlt : ∀ c, Relation.TransGen graph.Feeds o c →
        graph.kahn.order.idxOf o < graph.kahn.order.idxOf c := by
      have hstep : ∀ {p c}, graph.Feeds p c →
          graph.kahn.order.idxOf p < graph.kahn.order.idxOf c := by
        intro p c hfeeds
        obtain ⟨-, op, hop, -⟩ := h.feeds_iff.mp hfeeds
        exact (hbefore p c hfeeds (hall hlen c (Graph.mem_opIds_iff_op?.mpr ⟨op, hop⟩))).2
      intro c hpath
      induction hpath with
      | single hfeeds => exact hstep hfeeds
      | tail _ hfeeds ih => exact ih.trans (hstep hfeeds)
    exact lt_irrefl _ (hlt o hcycle)
  · intro hacyclic
    have hle : graph.kahn.order.length ≤ graph.ops.length :=
      (Nat.le_add_right _ _).trans h.kahn_sound.1.length_le
    refine hle.antisymm (not_lt.mp fun hlt => ?_)
    -- some op is left over, and the first of those left over waits for none of them
    have hleft : (graph.opIds.filter fun c => !graph.kahn.order.contains c).toFinset.Nonempty := by
      by_contra hempty
      rw [Finset.not_nonempty_iff_eq_empty, List.toFinset_eq_empty_iff, List.filter_eq_nil_iff] at hempty
      have hsub' : graph.opIds ⊆ graph.kahn.order := by
        intro c hc
        have hc := hempty c hc
        simpa using hc
      have hle := (List.subperm_of_subset graph.opIds_nodup hsub').length_le
      rw [graph.length_opIds] at hle
      omega
    obtain ⟨m, hm, hfirst⟩ := exists_first_of_acyclic hacyclic hleft
    rw [List.mem_toFinset, List.mem_filter] at hm
    obtain ⟨p, hp, hout, hfeeds⟩ := h.kahn_waits hm.1 (by simpa using hm.2)
    refine hfirst p ?_ hfeeds
    rw [List.mem_toFinset, List.mem_filter]
    exact ⟨hp, by simpa using hout⟩

/-! ## The bounded queue -/

/-- The local `tail`: the entries written to `queue` so far. -/
def Kahn.tail (k : Kahn) : ℕ := k.order.length + k.queue.length

/-- `Kahn.useInput`, refusing a write past the end of `queue`. -/
def Kahn.useInput? (v c : ℕ) (k : Kahn) (w : ℕ) : Option Kahn :=
  if w = v ∧ k.indegree c - 1 = 0 ∧ paiGraphMaxOps ≤ k.tail then none else some (k.useInput v c w)

/-- `Kahn.useOp` over the bounded queue. -/
def Kahn.useOp? (graph : Graph) (o v : ℕ) (k : Kahn) (c : ℕ) : Option Kahn :=
  if c = o then some k
  else
    match graph.op? c with
    | some op => op.inputs.foldlM (Kahn.useInput? v c) k
    | none => some k

/-- `Kahn.useOutput` over the bounded queue. -/
def Kahn.useOutput? (graph : Graph) (o : ℕ) (k : Kahn) (v : ℕ) : Option Kahn :=
  graph.opIds.foldlM (Kahn.useOp? graph o v) k

/-- `Kahn.take` over the bounded queue. -/
def Kahn.take? (graph : Graph) (k : Kahn) (o : ℕ) (rest : List ℕ) : Option Kahn :=
  let k := { k with queue := rest, order := k.order ++ [o] }
  match graph.op? o with
  | some op => op.outputs.foldlM (Kahn.useOutput? graph o) k
  | none => some k

/-- `Kahn.loop` over the bounded queue. -/
def Kahn.loop? (graph : Graph) : ℕ → Kahn → Option Kahn
  | 0, k => some k
  | fuel + 1, k =>
    match k.queue with
    | [] => some k
    | o :: rest => (k.take? graph o rest).bind (Kahn.loop? graph fuel)

/-- `Graph.kahn` over the bounded queue: nothing when a write would leave it. -/
def Graph.kahn? (graph : Graph) : Option Kahn :=
  if paiGraphMaxOps < (Kahn.init graph).tail then none
  else Kahn.loop? graph graph.ops.length (Kahn.init graph)

/-- The queue only grows, so a loop that ends within the bound never left it. -/
lemma Kahn.foldlM_eq_some {α : Type*} {f : Kahn → α → Kahn} {f? : Kahn → α → Option Kahn}
    (hmono : ∀ k x, k.tail ≤ (f k x).tail)
    (hf : ∀ k x, (f k x).tail ≤ paiGraphMaxOps → f? k x = some (f k x)) (xs : List α) (k : Kahn) :
    k.tail ≤ (xs.foldl f k).tail ∧
      ((xs.foldl f k).tail ≤ paiGraphMaxOps → xs.foldlM f? k = some (xs.foldl f k)) := by
  induction xs generalizing k with
  | nil => exact ⟨le_rfl, fun _ => rfl⟩
  | cons x xs ih =>
    obtain ⟨hle, hrest⟩ := ih (f k x)
    rw [List.foldl_cons, List.foldlM_cons]
    refine ⟨(hmono k x).trans hle, fun hend => ?_⟩
    rw [hf k x (hle.trans hend)]
    exact hrest hend

lemma Kahn.useInput_bounded (v c : ℕ) (k : Kahn) (w : ℕ) :
    k.tail ≤ (k.useInput v c w).tail ∧
      ((k.useInput v c w).tail ≤ paiGraphMaxOps →
        Kahn.useInput? v c k w = some (k.useInput v c w)) := by
  by_cases hpush : w = v ∧ k.indegree c - 1 = 0
  · have htail : (k.useInput v c w).tail = k.tail + 1 := by
      simp only [Kahn.useInput, Kahn.tail, if_pos hpush.1, if_pos hpush.2, List.length_append,
        List.length_singleton]
      omega
    refine ⟨by omega, fun hle => if_neg fun hfull => ?_⟩
    have hroom := hfull.2.2
    omega
  · have htail : (k.useInput v c w).tail = k.tail := by
      unfold Kahn.useInput Kahn.tail
      by_cases hw : w = v
      · simp only [if_pos hw, if_neg fun hd => hpush ⟨hw, hd⟩]
      · simp only [if_neg hw]
    exact ⟨htail.ge, fun _ => if_neg fun hfull => hpush ⟨hfull.1, hfull.2.1⟩⟩

lemma Kahn.useOp_bounded (graph : Graph) (o v : ℕ) (k : Kahn) (c : ℕ) :
    k.tail ≤ (k.useOp graph o v c).tail ∧
      ((k.useOp graph o v c).tail ≤ paiGraphMaxOps →
        k.useOp? graph o v c = some (k.useOp graph o v c)) := by
  unfold Kahn.useOp Kahn.useOp?
  by_cases hc : c = o
  · simp only [if_pos hc]
    exact ⟨le_rfl, fun _ => trivial⟩
  simp only [if_neg hc]
  cases graph.op? c with
  | none => exact ⟨le_rfl, fun _ => rfl⟩
  | some op =>
    exact Kahn.foldlM_eq_some (fun k w => (Kahn.useInput_bounded v c k w).1)
      (fun k w => (Kahn.useInput_bounded v c k w).2) op.inputs k

lemma Kahn.useOutput_bounded (graph : Graph) (o : ℕ) (k : Kahn) (v : ℕ) :
    k.tail ≤ (k.useOutput graph o v).tail ∧
      ((k.useOutput graph o v).tail ≤ paiGraphMaxOps →
        k.useOutput? graph o v = some (k.useOutput graph o v)) :=
  Kahn.foldlM_eq_some (fun k c => (Kahn.useOp_bounded graph o v k c).1)
    (fun k c => (Kahn.useOp_bounded graph o v k c).2) graph.opIds k

/-- Taking an op moves it from the queue to the order, which leaves `tail` as it is. -/
lemma Kahn.take_bounded (graph : Graph) (k : Kahn) {o : ℕ} {rest : List ℕ}
    (hqueue : k.queue = o :: rest) :
    k.tail ≤ (k.take graph o rest).tail ∧
      ((k.take graph o rest).tail ≤ paiGraphMaxOps →
        k.take? graph o rest = some (k.take graph o rest)) := by
  have htail : k.tail = ({ k with queue := rest, order := k.order ++ [o] } : Kahn).tail := by
    simp only [Kahn.tail, hqueue, List.length_append, List.length_cons, List.length_nil]
    omega
  rw [htail]
  unfold Kahn.take Kahn.take?
  cases graph.op? o with
  | none => exact ⟨le_rfl, fun _ => rfl⟩
  | some op =>
    exact Kahn.foldlM_eq_some (fun k v => (Kahn.useOutput_bounded graph o k v).1)
      (fun k v => (Kahn.useOutput_bounded graph o k v).2) op.outputs _

lemma Kahn.loop_bounded (graph : Graph) (fuel : ℕ) (k : Kahn) :
    k.tail ≤ (Kahn.loop graph fuel k).tail ∧
      ((Kahn.loop graph fuel k).tail ≤ paiGraphMaxOps →
        Kahn.loop? graph fuel k = some (Kahn.loop graph fuel k)) := by
  induction fuel generalizing k with
  | zero => exact ⟨le_rfl, fun _ => rfl⟩
  | succ fuel ih =>
    rw [Kahn.loop, Kahn.loop?]
    cases hqueue : k.queue with
    | nil => exact ⟨le_rfl, fun _ => rfl⟩
    | cons o rest =>
      obtain ⟨hle, htake⟩ := Kahn.take_bounded graph k hqueue
      obtain ⟨hle', hloop⟩ := ih (k.take graph o rest)
      refine ⟨hle.trans hle', fun hend => ?_⟩
      simp only
      rw [htake (hle'.trans hend)]
      exact hloop hend

/-- The queue of a built graph never overflows. -/
lemma Graph.Built.kahn?_eq {graph : Graph} (h : graph.Built) : graph.kahn? = some graph.kahn := by
  obtain ⟨hle, hloop⟩ := Kahn.loop_bounded graph graph.ops.length (Kahn.init graph)
  have hend : graph.kahn.tail ≤ paiGraphMaxOps := h.kahn_sound.1.length_le.trans h.ops_le
  rw [Graph.kahn?, if_neg (not_lt.mpr (hle.trans hend))]
  exact hloop hend

/-! ## The sort -/

/-- The epochs after a complete sort are the places in the order. -/
lemma Graph.Built.epoch_setEpochs {graph : Graph} (h : graph.Built)
    (hlen : graph.kahn.order.length = graph.ops.length) {o : ℕ} (ho : o ∈ graph.opIds) :
    ({ graph with ops := setEpochs graph.ops graph.kahn.order, sorted := true } : Graph).epoch o =
      graph.kahn.order.idxOf o := by
  obtain ⟨hnodup, hsub, hall⟩ := h.kahn_order
  have hpos : ∀ c ∈ graph.kahn.order, 1 ≤ c := fun c hc => (Graph.mem_opIds.mp (hsub c hc)).1
  obtain ⟨h1, h2⟩ := Graph.mem_opIds.mp ho
  obtain ⟨op, hop⟩ := Graph.op?_of_le h1 h2
  have hne : o ≠ 0 := by omega
  have hget := @getElem?_setEpochs graph.ops graph.kahn.order hpos hnodup 0 (o - 1)
  rw [Graph.op?, if_neg hne] at hop
  rw [show o - 1 + 1 = o by omega, hop, Option.map_some, if_pos (hall hlen o ho), Nat.zero_add] at hget
  unfold Graph.epoch
  rw [Graph.op?, if_neg hne]
  simp only [setEpochs, hget]

/-- The topological sort of any graph the API builds: it succeeds exactly when no op depends on itself;
then the epochs number the ops from zero on with every producer before its consumers; otherwise no epoch
changes.  The queue never holds more than its `PAI_GRAPH_MAX_OPS` entries. -/
theorem paiGraphTopoSort_sorts (calls : List GraphCall) :
    ((paiGraphTopoSort (graphBuild calls)).2 = paiOk ↔ (graphBuild calls).Acyclic) ∧
    ((paiGraphTopoSort (graphBuild calls)).2 = paiOk →
      Set.BijOn (paiGraphTopoSort (graphBuild calls)).1.epoch
        {o | 1 ≤ o ∧ o ≤ (graphBuild calls).ops.length} {i | i < (graphBuild calls).ops.length} ∧
      ∀ p c, (graphBuild calls).Feeds p c →
        (paiGraphTopoSort (graphBuild calls)).1.epoch p <
          (paiGraphTopoSort (graphBuild calls)).1.epoch c) ∧
    ((paiGraphTopoSort (graphBuild calls)).2 ≠ paiOk →
      (paiGraphTopoSort (graphBuild calls)).2 = paiErrMismatch ∧
      ∀ o, (paiGraphTopoSort (graphBuild calls)).1.epoch o = (graphBuild calls).epoch o) ∧
    (graphBuild calls).kahn? = some (graphBuild calls).kahn := by
  have h : (graphBuild calls).Built := graphBuilt_run calls
  generalize graphBuild calls = graph at h
  obtain ⟨hnodup, hsub, hall⟩ := h.kahn_order
  by_cases hlen : graph.kahn.order.length = graph.ops.length
  · have hsort : paiGraphTopoSort graph =
        ({ graph with ops := setEpochs graph.ops graph.kahn.order, sorted := true }, paiOk) :=
      if_neg (not_not.mpr hlen)
    have hepoch := fun o => h.epoch_setEpochs hlen (o := o)
    rw [hsort]
    refine ⟨iff_of_true rfl (h.kahn_complete.mp hlen), fun _ => ⟨⟨?_, ?_, ?_⟩, ?_⟩,
      fun hne => absurd rfl hne, h.kahn?_eq⟩
    · intro o ho
      have ho := Graph.mem_opIds.mpr ho
      change _ < graph.ops.length
      rw [hepoch o ho, ← hlen]
      exact List.idxOf_lt_length_of_mem (hall hlen o ho)
    · intro o ho o' ho' heq
      have ho := Graph.mem_opIds.mpr ho
      have ho' := Graph.mem_opIds.mpr ho'
      rw [hepoch o ho, hepoch o' ho'] at heq
      exact (List.idxOf_inj (hall hlen o ho)).mp heq
    · intro i hi
      have hi : i < graph.kahn.order.length := hlen ▸ hi
      have hmem := hsub _ (List.getElem_mem hi)
      refine ⟨graph.kahn.order[i], Graph.mem_opIds.mp hmem, ?_⟩
      rw [hepoch _ hmem]
      exact hnodup.idxOf_getElem i hi
    · intro p c hfeeds
      obtain ⟨producer, consumer, v, hp, hc, -⟩ := id hfeeds
      have hp := Graph.mem_opIds_iff_op?.mpr ⟨producer, hp⟩
      have hc := Graph.mem_opIds_iff_op?.mpr ⟨consumer, hc⟩
      rw [hepoch p hp, hepoch c hc]
      exact (h.kahn_sound.1.before p c hfeeds (hall hlen c hc)).2
  · have hsort : paiGraphTopoSort graph = ({ graph with sorted := false }, paiErrMismatch) :=
      if_pos hlen
    rw [hsort]
    have hne : paiErrMismatch ≠ paiOk := by decide
    exact ⟨iff_of_false hne fun hacyclic => hlen (h.kahn_complete.mpr hacyclic),
      fun heq => absurd heq hne, fun _ => ⟨rfl, fun _ => rfl⟩, h.kahn?_eq⟩

end Prospero
