import Prospero.Models.Model
import Prospero.Pai.Codec

/-!
# Opening packed containers

`paiModelOpenBlob` on a container of `packContainer`.  Its sections and its program are the ones that were
packed, whatever the checksums over them are, so examples need not compute any.
-/

namespace Prospero

open Buffer ByteString Footprint Reader

section Rest

variable (malloc : ℕ → Bool) (inflate : List UInt8 → ℕ → Option (List UInt8))
  (qsort : Planner → List SortEntry)

/-- `pai_model_open_blob` behind the checks of the container and of the program. -/
def openRest (container : PaiContainer) (ir : IrProgram) : Read PaiStatus Model := do
  let metaSec ← requireSection container paiPaiSecMeta
  let info ← paiPaiMetaDecode metaSec
  let manifestSec ← requireSection container paiPaiSecManifest
  let manifest ← paiPaiManifestDecode manifestSec paiPaiMaxTensors
  let (weights, weightsBytes) ← openWeights malloc inflate container manifest
  let graph ← liftStatus (paiIrToGraph ir)
  let planned := paiGraphMemoryPlanPersistent qsort graph
  let memPlan ← liftStatus planned.2
  let tokenizer ← openTokenizer container
  .ok ⟨info, ir, planned.1, memPlan, manifest, weights, weightsBytes, tokenizer⟩

/-- The checks pass, and the rest opens. -/
lemma paiModelOpenBlob_eq {blob irSec : List UInt8} {container : PaiContainer} {ir : IrProgram}
    (hopen : paiPaiOpen blob = .ok container) (hsec : requireSection container paiPaiSecIr = .ok irSec)
    (hdecode : paiIrDecode irSec = .ok ir) :
    paiModelOpenBlob malloc inflate qsort blob = openRest malloc inflate qsort container ir := by
  simp only [paiModelOpenBlob, openRest, hopen, hsec, hdecode, ok_bind]

end Rest

/-- The sections of a container, uncompressed. -/
def packSections (metaSec manifestSec weights : List UInt8) (ir : IrProgram)
    (tokenizer : Option (List UInt8)) : List BuilderSection :=
  ([(paiPaiSecMeta, metaSec), (paiPaiSecManifest, manifestSec), (paiPaiSecWeights, weights),
    (paiPaiSecIr, irBlob ir)] ++ tokenizer.toList.map fun tok => (paiPaiSecTokenizer, tok)).map
      fun s => ⟨s.1, 0, s.2, UInt32.ofNat s.2.length⟩

/-- Sections of distinct known types, given in full. -/
lemma buildable_of_test {builder : List BuilderSection}
    (h : 0 < builder.length ∧ builder.length ≤ paiPaiMaxSections ∧
      (∀ s ∈ builder, s.type ≠ 0 ∧ s.type ≤ paiPaiSecProfile) ∧ (∀ s ∈ builder, s.flags = 0) ∧
      builder.Pairwise (fun s t => s.type ≠ t.type) ∧ (∀ s ∈ builder, s.data.length = s.size.toNat) ∧
      paiPaiHeaderSize + builder.length * 16 + (builder.map fun s => s.size.toNat).sum < 4294967296) :
    Buildable builder :=
  ⟨h.1, h.2.1, h.2.2.1, fun s hs => Or.inl (h.2.2.2.1 s hs), h.2.2.2.2.1, h.2.2.2.2.2.1, h.2.2.2.2.2.2⟩

/-- The sections as they are opened. -/
def packed (builder : List BuilderSection) (blob : List UInt8) : PaiContainer :=
  ⟨tableEntries (paiPaiHeaderSize + builder.length * 16) builder, blob⟩

section Pack

variable {info : PaiMeta} {manifest : List PaiTensor} {metaSec manifestSec weights : List UInt8}
  {ir : IrProgram} {tokenizer : Option (List UInt8)}

/-- What is built from the sections. -/
lemma packContainer_build (hmeta : paiPaiMetaEncode info = .ok metaSec)
    (hmanifest : paiPaiManifestEncode manifest 0xFFFFFFFF = .ok manifestSec) :
    packContainer info manifest weights ir tokenizer =
      match paiPaiBuild (packSections metaSec manifestSec weights ir tokenizer) 0xFFFFFFFF with
      | .ok blob => blob
      | .error _ => [] := by
  unfold packContainer
  rw [hmeta, hmanifest]
  rfl

/-- A packed container. -/
lemma packContainer_eq (hmeta : paiPaiMetaEncode info = .ok metaSec)
    (hmanifest : paiPaiManifestEncode manifest 0xFFFFFFFF = .ok manifestSec)
    (h : Buildable (packSections metaSec manifestSec weights ir tokenizer)) :
    packContainer info manifest weights ir tokenizer =
      containerHeader (packSections metaSec manifestSec weights ir tokenizer).length ++
        (u32le (containerCrc (containerHeader (packSections metaSec manifestSec weights ir tokenizer).length)
          (containerRest (packSections metaSec manifestSec weights ir tokenizer))) ++
          containerRest (packSections metaSec manifestSec weights ir tokenizer)) := by
  have hbuild : paiPaiBuild (packSections metaSec manifestSec weights ir tokenizer) 0xFFFFFFFF = .ok _ :=
    h.build_of_le (by have := h.total_lt; rw [h.encodedSize_eq]; omega)
  rw [packContainer_build hmeta hmanifest, hbuild]

/-- A packed container is opened with its sections and its program. -/
lemma paiModelOpenBlob_packContainer (malloc : ℕ → Bool) (inflate : List UInt8 → ℕ → Option (List UInt8))
    (qsort : Planner → List SortEntry) (hmeta : paiPaiMetaEncode info = .ok metaSec)
    (hmanifest : paiPaiManifestEncode manifest 0xFFFFFFFF = .ok manifestSec)
    (h : Buildable (packSections metaSec manifestSec weights ir tokenizer)) (hir : ir.Accepted) :
    paiModelOpenBlob malloc inflate qsort (packContainer info manifest weights ir tokenizer) =
      openRest malloc inflate qsort (packed (packSections metaSec manifestSec weights ir tokenizer)
        (packContainer info manifest weights ir tokenizer)) ir := by
  obtain ⟨hopen, hpayloads⟩ := h.open_eq (packContainer_eq hmeta hmanifest h)
  refine paiModelOpenBlob_eq malloc inflate qsort hopen ?_ hir.decode_blob
  have hmem : (⟨paiPaiSecIr, 0, irBlob ir, UInt32.ofNat (irBlob ir).length⟩ : BuilderSection) ∈
      packSections metaSec manifestSec weights ir tokenizer := by
    simp [packSections]
  obtain ⟨e, hfind, -, hslice⟩ :=
    find_tableEntries h.total_lt hpayloads h.size_eq h.types_distinct hmem
  have hfound : (packed (packSections metaSec manifestSec weights ir tokenizer)
      (packContainer info manifest weights ir tokenizer)).find paiPaiSecIr = some e := hfind
  rw [requireSection, paiPaiSection, hfound, Option.map_some]
  exact congrArg Except.ok hslice

/-- A test of what a packed container is opened to, on its sections and its program. -/
lemma exists_of_packContainer {malloc : ℕ → Bool} {inflate : List UInt8 → ℕ → Option (List UInt8)}
    {qsort : Planner → List SortEntry} {test : Model → Bool}
    (hmeta : paiPaiMetaEncode info = .ok metaSec)
    (hmanifest : paiPaiManifestEncode manifest 0xFFFFFFFF = .ok manifestSec)
    (h : Buildable (packSections metaSec manifestSec weights ir tokenizer)) (hir : ir.Accepted)
    (htest : (openRest malloc inflate qsort (packed (packSections metaSec manifestSec weights ir tokenizer)
      (packContainer info manifest weights ir tokenizer)) ir).toOption.any test = true) :
    ∃ model, paiModelOpenBlob malloc inflate qsort (packContainer info manifest weights ir tokenizer) =
      .ok model ∧ test model = true := by
  rw [paiModelOpenBlob_packContainer malloc inflate qsort hmeta hmanifest h hir]
  cases hopen : openRest malloc inflate qsort (packed (packSections metaSec manifestSec weights ir tokenizer)
      (packContainer info manifest weights ir tokenizer)) ir with
  | ok model =>
    rw [hopen] at htest
    exact ⟨model, rfl, htest⟩
  | error e =>
    rw [hopen] at htest
    cases htest

end Pack

/-- A program of one sum, over an input and a parameter of one element. -/
lemma sumProgram_accepted : (irBuild [.addValue .f32 [1] 16 1 0, .addValue .f32 [1] 16 2 0,
    .addValue .f32 [1] 16 4 0, .addOp 1 0 [1, 2] [3], .setInput 1, .setOutput 3]).Accepted :=
  ⟨irBuilt_run _, by unfold IrOp.HasOperands; decide⟩

end Prospero
