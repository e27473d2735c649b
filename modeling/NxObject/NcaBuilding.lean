import NxObject.NcaLayout

/-!
# When an NCA is built

A section is accepted with any block size. It is divided by its block size only when the loop reaches it, and
the loop reaches every section that begins where a media offset can still point.
-/
namespace NxObject.Archive
open Outcome Digests Placement

variable {H : Bytes → Digest}

def NcaBuilder.new (contentType : NcaContentType) (titleId : UInt64) : NcaBuilder := { contentType, titleId }

/-! ## One section -/

/-- The archive of the section, if it holds one, is hashed in blocks of some bytes. -/
def Section.HasBlocks (sect : Section) : Prop :=
  match sect.data with
  | .romFs _ => True
  | .partition _ blockSize => blockSize ≠ 0

lemma Section.sound_iff_hasBlocks {sect : Section} (h : (sect.stored H).length < 2 ^ 64) :
    sect.Sound H ↔ sect.HasBlocks := by
  obtain ⟨data, encryption⟩ := sect
  cases data with
  | romFs image => exact iff_of_true h trivial
  | partition archive blockSize => rfl

namespace Ivfc

lemma placeLevels_of_ge {ε : Type} {logicalOffset : ℕ} {levels : List Bytes} (hstart : logicalOffset < 2 ^ 64)
    (h : 2 ^ 64 ≤ logicalOffset + levels.flatten.length) : (placeLevels logicalOffset levels : Outcome ε _) = panic := by
  induction levels generalizing logicalOffset with
  | nil => exact absurd h (Nat.not_le.mpr hstart)
  | cons level levels ih =>
    rw [List.flatten_cons, List.length_append, ← Nat.add_assoc] at h
    rw [placeLevels]
    by_cases hlt : logicalOffset + level.length < 2 ^ 64
    · rw [add_of_lt hlt, ok_bind, ih hlt h, panic_bind]
    · rw [add, if_neg hlt, panic_bind]

lemma build_of_ge {ε : Type} {romfs : Bytes} (h : 2 ^ 64 ≤ (stored H romfs).length) :
    (build H romfs : Outcome ε _) = panic := by
  have hlevels : 2 ^ 64 ≤ 0 + ((List.finRange IVFC_MAX_LEVELS).map (level H romfs)).flatten.length := by
    rw [Nat.zero_add]
    exact h
  have hlowest : (index ((List.finRange IVFC_MAX_LEVELS).map (level H romfs)) 0 : Outcome ε _) =
      ok (level H romfs 0) := index_of_getElem? (levels_getElem? H romfs 0)
  rw [build, deriveLevels_eq, hlowest, ok_bind, placeLevels_of_ge (by decide) hlevels, panic_bind]

end Ivfc

namespace Partition

lemma room_le_padded (archive : Bytes) (blockSize : UInt32) :
    (archive.length / blockSize.toNat + 1) * HASH_SIZE ≤ (padded H archive blockSize).length := by
  have hcount : archive.length / blockSize.toNat ≤ blockCount blockSize.toNat archive.length :=
    Nat.div_le_div_right (Nat.le_add_right _ _)
  have htable := digests_length H archive blockSize
  have hdvd : HASH_SIZE ∣ (padded H archive blockSize).length := by
    rw [padded, List.length_append, List.length_replicate]
    exact (show HASH_SIZE ∣ MEDIA_UNIT_SIZE by decide).trans (dvd_add_sub_mod (by decide) _)
  obtain ⟨k, hk⟩ := hdvd
  have hlt := padded_length H archive blockSize
  rw [htable, hk, Nat.mul_comm HASH_SIZE, Nat.mul_lt_mul_right (by decide)] at hlt
  rw [hk, Nat.mul_comm HASH_SIZE]
  exact Nat.mul_le_mul_right _ (by omega)

end Partition

lemma layOutSection_of_not_sound {ε : Type} {sect : Section} (h : ¬sect.Sound H) :
    (layOutSection H sect : Outcome ε _) = panic := by
  obtain ⟨data, encryption⟩ := sect
  cases data with
  | romFs image =>
    have htree : (Ivfc.build H image : Outcome ε _) = panic := Ivfc.build_of_ge (Nat.not_lt.mp h)
    simp only [layOutSection, htree, panic_bind]
  | partition archive blockSize =>
    obtain rfl : blockSize = 0 := not_not.mp h
    rfl

/-! ## The loop over the slots -/

namespace NcaBuilder
variable {b : NcaBuilder}

lemma header_lt : NCA_HEADER_SIZE < 2 ^ 32 * MEDIA_UNIT_SIZE := by decide

/-- Where slot `i` ends in the image. -/
def slotEnd (H : Bytes → Digest) (b : NcaBuilder) (i : Fin NCA_SECTION_COUNT) : ℕ :=
  b.slotStart H i + b.chunkSize H i

lemma stored_le_slotEnd {i : Fin NCA_SECTION_COUNT} {sect : Section} (hsect : b.sections i = some sect) :
    (sect.stored H).length ≤ b.slotEnd H i := by
  have hchunk : b.chunkSize H i = (padToMediaUnit (sect.stored H)).length := by rw [chunkSize, chunk, hsect]
  rw [slotEnd, hchunk]
  exact (padToMediaUnit_length _).1.trans (Nat.le_add_left _ _)

/-- The product that reserves the room for a table overflows only if the section ends beyond all offsets. -/
theorem tableRoom_lt {i : Fin NCA_SECTION_COUNT} {archive : Bytes} {blockSize : UInt32}
    {encryption : SectionEncryption} (hsect : b.sections i = some ⟨.partition archive blockSize, encryption⟩)
    (hend : b.slotEnd H i < 2 ^ 64) : (archive.length / blockSize.toNat + 1) * HASH_SIZE < 2 ^ 64 := by
  have hpadded : (Partition.padded H archive blockSize).length ≤ (Partition.stored H archive blockSize).length := by
    rw [Partition.stored, List.length_append]
    exact Nat.le_add_right _ _
  exact (((Partition.room_le_padded archive blockSize).trans hpadded).trans (stored_le_slotEnd hsect)).trans_lt hend

/-- A value, or the end of a section that no media offset reaches. -/
def Documented {α : Type} (H : Bytes → Digest) (b : NcaBuilder) (x : Outcome BuildError α) : Prop :=
  (∃ a, x = ok a) ∨ ∃ i, (b.sections i).isSome ∧ 2 ^ 32 * MEDIA_UNIT_SIZE ≤ b.slotEnd H i ∧ x = err ⟨b.slotEnd H i⟩

lemma Documented.settled {α : Type} {x : Outcome BuildError α} (h : b.Documented H x) : Settled x :=
  h.imp_right fun ⟨_, _, _, herr⟩ => ⟨_, herr⟩

lemma not_documented_panic {α : Type} : ¬b.Documented H (panic : Outcome BuildError α) :=
  fun h => h.settled.ne_panic rfl

lemma not_documented_running {α : Type} : ¬b.Documented H (running : Outcome BuildError α) :=
  fun h => h.settled.ne_running rfl

section Step
variable {done rest : List (Fin NCA_SECTION_COUNT)} {i : Fin NCA_SECTION_COUNT}
  (hsplit : List.finRange NCA_SECTION_COUNT = done ++ i :: rest)
include hsplit

lemma start_addressed (hreach : b.slotStart H i < 2 ^ 32 * MEDIA_UNIT_SIZE) :
    (add NCA_HEADER_SIZE (done.flatMap (b.chunk H)).length >>= mediaOffset) =
      ok (UInt32.ofNat (b.slotStart H i / MEDIA_UNIT_SIZE)) :=
  bodyOffset_of_lt (slotStart_of_append hsplit) hreach

lemma buildSection_of_not_sound (hreach : b.slotStart H i < 2 ^ 32 * MEDIA_UNIT_SIZE) {sect : Section}
    (hsect : b.sections i = some sect) (hsound : ¬sect.Sound H) :
    buildSection H b.sections (b.headerAfter H done, done.flatMap (b.chunk H)) i = panic := by
  simp only [buildSection, hsect, start_addressed hsplit hreach, layOutSection_of_not_sound hsound, ok_bind,
    panic_bind]

lemma buildSection_of_sound (hreach : b.slotStart H i < 2 ^ 32 * MEDIA_UNIT_SIZE) {sect : Section}
    (hsect : b.sections i = some sect) (hsound : sect.Sound H) {x : Outcome BuildError (NcaHeader × Bytes)}
    (hx : ∀ f, (add NCA_HEADER_SIZE ((done ++ [i]).flatMap (b.chunk H)).length >>= mediaOffset) >>= f = x) :
    buildSection H b.sections (b.headerAfter H done, done.flatMap (b.chunk H)) i = x := by
  have hlaid : (layOutSection H sect : Outcome BuildError _) = ok _ := (layOutSection_eq_ok H).mpr ⟨hsound, rfl⟩
  have hpad : padToMediaUnit (done.flatMap (b.chunk H) ++ sect.stored H) =
      (done ++ [i]).flatMap (b.chunk H) := padToMediaUnit_done hsect
  simp only [buildSection, hsect, start_addressed hsplit hreach, hlaid, hpad, ok_bind]
  exact hx _

lemma buildSection_of_overflow (hreach : b.slotStart H i < 2 ^ 32 * MEDIA_UNIT_SIZE) {sect : Section}
    (hsect : b.sections i = some sect) (hsound : sect.Sound H) (hend : ¬b.slotEnd H i < 2 ^ 64) :
    buildSection H b.sections (b.headerAfter H done, done.flatMap (b.chunk H)) i = panic := by
  refine buildSection_of_sound hsplit hreach hsect hsound fun f => ?_
  rw [slotEnd] at hend
  rw [add, slotEnd_of_append hsplit, if_neg hend, panic_bind, panic_bind]

lemma buildSection_of_far (hreach : b.slotStart H i < 2 ^ 32 * MEDIA_UNIT_SIZE) {sect : Section}
    (hsect : b.sections i = some sect) (hsound : sect.Sound H) (hend : b.slotEnd H i < 2 ^ 64)
    (hfar : 2 ^ 32 * MEDIA_UNIT_SIZE ≤ b.slotEnd H i) :
    buildSection H b.sections (b.headerAfter H done, done.flatMap (b.chunk H)) i = err ⟨b.slotEnd H i⟩ := by
  refine buildSection_of_sound hsplit hreach hsect hsound fun f => ?_
  have hunits : ¬b.slotEnd H i / MEDIA_UNIT_SIZE < 2 ^ 32 := by
    rw [Nat.div_lt_iff_lt_mul (by decide)]
    exact Nat.not_lt.mpr hfar
  have hmedia : mediaOffset (b.slotEnd H i) = err ⟨b.slotEnd H i⟩ := if_neg hunits
  have hadd : (add NCA_HEADER_SIZE ((done ++ [i]).flatMap (b.chunk H)).length : Outcome BuildError _) =
      ok (b.slotEnd H i) := by
    rw [add, slotEnd_of_append hsplit]
    exact if_pos hend
  rw [hadd, ok_bind, hmedia, err_bind]

lemma buildSection_outcome (hreach : b.slotStart H i < 2 ^ 32 * MEDIA_UNIT_SIZE) {sect : Section}
    (hsect : b.sections i = some sect) :
    (sect.HasBlocks ∧ b.slotEnd H i < 2 ^ 32 * MEDIA_UNIT_SIZE ∧
      buildSection H b.sections (b.headerAfter H done, done.flatMap (b.chunk H)) i =
        ok (b.headerAfter H (done ++ [i]), (done ++ [i]).flatMap (b.chunk H))) ∨
    ((sect.HasBlocks ∧ b.slotEnd H i < 2 ^ 64) ∧ 2 ^ 32 * MEDIA_UNIT_SIZE ≤ b.slotEnd H i ∧
      buildSection H b.sections (b.headerAfter H done, done.flatMap (b.chunk H)) i = err ⟨b.slotEnd H i⟩) ∨
    (¬(sect.HasBlocks ∧ b.slotEnd H i < 2 ^ 64) ∧
      buildSection H b.sections (b.headerAfter H done, done.flatMap (b.chunk H)) i = panic) := by
  by_cases hend : b.slotEnd H i < 2 ^ 64
  · have hsound := sect.sound_iff_hasBlocks (H := H) ((stored_le_slotEnd hsect).trans_lt hend)
    by_cases hblocks : sect.HasBlocks
    · by_cases hfar : b.slotEnd H i < 2 ^ 32 * MEDIA_UNIT_SIZE
      · exact Or.inl ⟨hblocks, hfar, (buildSection_placed hsplit hsect).mpr ⟨rfl, hsound.mpr hblocks, hfar⟩⟩
      · exact Or.inr (Or.inl ⟨⟨hblocks, hend⟩, Nat.not_lt.mp hfar,
          buildSection_of_far hsplit hreach hsect (hsound.mpr hblocks) hend (Nat.not_lt.mp hfar)⟩)
    · exact Or.inr (Or.inr ⟨fun h => hblocks h.1,
        buildSection_of_not_sound hsplit hreach hsect (hsound.not.mpr hblocks)⟩)
  · refine Or.inr (Or.inr ⟨fun h => hend h.2, ?_⟩)
    by_cases hsound : sect.Sound H
    · exact buildSection_of_overflow hsplit hreach hsect hsound hend
    · exact buildSection_of_not_sound hsplit hreach hsect hsound

end Step

lemma slotEnd_le_slotStart {done rest : List (Fin NCA_SECTION_COUNT)} {i j : Fin NCA_SECTION_COUNT}
    (hsplit : List.finRange NCA_SECTION_COUNT = done ++ i :: rest) (hj : j ∈ rest) :
    b.slotEnd H i ≤ b.slotStart H j := by
  obtain ⟨before, after, rfl⟩ := List.append_of_mem hj
  have hsplit' : List.finRange NCA_SECTION_COUNT = (done ++ [i] ++ before) ++ j :: after := by
    rw [hsplit]
    simp
  have hbytes : (done ++ [i] ++ before).flatMap (b.chunk H) =
      (done ++ [i]).flatMap (b.chunk H) ++ before.flatMap (b.chunk H) := List.flatMap_append
  rw [slotEnd, ← slotEnd_of_append hsplit, ← slotStart_of_append hsplit', hbytes, List.length_append]
  exact Nat.add_le_add_left (Nat.le_add_right _ _) NCA_HEADER_SIZE

/-- The loop over the slots that are left, from a body that a media offset reaches the end of. -/
lemma buildSections_documented_iff {done rest : List (Fin NCA_SECTION_COUNT)}
    (hsplit : List.finRange NCA_SECTION_COUNT = done ++ rest)
    (hbody : NCA_HEADER_SIZE + (done.flatMap (b.chunk H)).length < 2 ^ 32 * MEDIA_UNIT_SIZE) :
    b.Documented H (rest.foldlM (buildSection H b.sections) (b.headerAfter H done, done.flatMap (b.chunk H))) ↔
      ∀ i ∈ rest, ∀ sect, b.sections i = some sect → b.slotStart H i < 2 ^ 32 * MEDIA_UNIT_SIZE →
        sect.HasBlocks ∧ b.slotEnd H i < 2 ^ 64 := by
  induction rest generalizing done with
  | nil => exact iff_of_true (Or.inl ⟨_, rfl⟩) (List.forall_mem_nil _)
  | cons i rest ih =>
    have hreach : b.slotStart H i < 2 ^ 32 * MEDIA_UNIT_SIZE := by rwa [← slotStart_of_append hsplit]
    have hsplit' : List.finRange NCA_SECTION_COUNT = (done ++ [i]) ++ rest := by
      rw [hsplit, List.append_assoc]
      rfl
    rw [List.foldlM_cons, List.forall_mem_cons]
    cases hsect : b.sections i with
    | none =>
      have hnext : NCA_HEADER_SIZE + ((done ++ [i]).flatMap (b.chunk H)).length < 2 ^ 32 * MEDIA_UNIT_SIZE := by
        have hchunk : b.chunk H i = [] := by rw [chunk, hsect]
        rwa [List.flatMap_append, List.flatMap_singleton, hchunk, List.append_nil]
      rw [buildSection_empty hsect, ok_bind, ih hsplit' hnext]
      exact ⟨fun h => ⟨fun _ hnone => absurd hnone.symm (Option.some_ne_none _), h⟩, And.right⟩
    | some sect =>
      simp only [Option.some.injEq, forall_eq', hreach, true_implies]
      have hwords : 2 ^ 32 * MEDIA_UNIT_SIZE < 2 ^ 64 := by decide
      rcases buildSection_outcome hsplit hreach hsect with ⟨hblocks, hnear, hstep⟩ | ⟨hgood, hfar, hstep⟩ |
        ⟨hbad, hstep⟩
      · rw [hstep, ok_bind, ih hsplit' ((slotEnd_of_append (H := H) hsplit).trans_lt hnear)]
        exact ⟨fun h => ⟨⟨hblocks, hnear.trans hwords⟩, h⟩, And.right⟩
      · -- No section behind this one is reached.
        rw [hstep, err_bind]
        refine iff_of_true (Or.inr ⟨i, by rw [hsect]; rfl, hfar, rfl⟩) ⟨hgood, fun j hj _ _ hstart => ?_⟩
        exact absurd ((slotEnd_le_slotStart hsplit hj).trans_lt hstart) (Nat.not_lt.mpr hfar)
      · rw [hstep, panic_bind]
        exact iff_of_false not_documented_panic fun h => hbad h.1

lemma length_lt_of_addressable {done rest : List (Fin NCA_SECTION_COUNT)}
    (hsplit : List.finRange NCA_SECTION_COUNT = done ++ rest) (h : b.Addressable H done) :
    NCA_HEADER_SIZE + (done.flatMap (b.chunk H)).length < 2 ^ 32 * MEDIA_UNIT_SIZE := by
  induction done using List.reverseRecOn generalizing rest with
  | nil => exact header_lt
  | append_singleton done i ih =>
    have hsplit' : List.finRange NCA_SECTION_COUNT = done ++ i :: rest := by
      rw [hsplit, List.append_assoc]
      rfl
    cases hsect : b.sections i with
    | none =>
      have hchunk : b.chunk H i = [] := by rw [chunk, hsect]
      rw [List.flatMap_append, List.flatMap_singleton, hchunk, List.append_nil]
      exact ih hsplit' fun j hj => h j (List.mem_append_left _ hj)
    | some sect =>
      rw [slotEnd_of_append hsplit']
      exact (h i (List.mem_append_right _ (List.mem_singleton_self i)) sect hsect).2

lemma documented_err {α : Type} {e : BuildError} : b.Documented H (err e : Outcome BuildError α) ↔
    ∃ i, (b.sections i).isSome ∧ 2 ^ 32 * MEDIA_UNIT_SIZE ≤ b.slotEnd H i ∧ e = ⟨b.slotEnd H i⟩ := by
  simp only [Documented, reduceCtorEq, exists_false, false_or, err.injEq]

/-- An archive is built or refused for its size if and only if no section that the loop reaches has blocks of
no bytes, and none ends beyond all offsets. -/
theorem build_documented_iff (b : NcaBuilder) : b.Documented H (b.build H) ↔
    ∀ i sect, b.sections i = some sect → b.slotStart H i < 2 ^ 32 * MEDIA_UNIT_SIZE →
      sect.HasBlocks ∧ b.slotEnd H i < 2 ^ 64 := by
  have hsplit : List.finRange NCA_SECTION_COUNT = [] ++ List.finRange NCA_SECTION_COUNT := (List.nil_append _).symm
  have hloop := buildSections_documented_iff (b := b) (H := H) hsplit header_lt
  simp only [List.mem_finRange, true_implies] at hloop
  rw [← hloop, build]
  have hempty : (b.emptyHeader, ([] : Bytes)) =
      (b.headerAfter H [], ([] : List (Fin NCA_SECTION_COUNT)).flatMap (b.chunk H)) := rfl
  rw [hempty]
  cases hrun : (List.finRange NCA_SECTION_COUNT).foldlM (buildSection H b.sections)
      (b.headerAfter H [], ([] : List (Fin NCA_SECTION_COUNT)).flatMap (b.chunk H)) with
  | ok s =>
    obtain ⟨rfl, haddressable⟩ := (buildSections_eq_ok hsplit).mp hrun
    have hwords : 2 ^ 32 * MEDIA_UNIT_SIZE < 2 ^ 64 := by decide
    have hsize := (length_lt_of_addressable (List.append_nil _).symm haddressable).trans hwords
    refine iff_of_true (Or.inl ?_) (Or.inl ⟨_, rfl⟩)
    rw [ok_bind]
    exact ⟨_, bind_eq_ok.mpr ⟨_, add_of_lt hsize, rfl⟩⟩
  | err e => rw [err_bind, documented_err, documented_err]
  | panic => exact iff_of_false not_documented_panic not_documented_panic
  | running => exact iff_of_false not_documented_running not_documented_running

/-- A partition of no bytes, hashed in blocks of no bytes, is placed and not built. -/
theorem emptyBlocks_panic : ∃ b, (NcaBuilder.new .program 0).addSection 0 ⟨.partition [] 0, .none⟩ = ok b ∧
    ∀ H, b.build H = panic :=
  ⟨_, rfl, fun _ => rfl⟩

end NcaBuilder
end NxObject.Archive
