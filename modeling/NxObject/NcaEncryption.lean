import NxObject.NcaRoundtrip

/-!
# The encryption plan of a built NCA

The sections that are to be encrypted, in the order of their slots, with the counters the reader works
out from the image for itself. A counter holds the offset of its section in blocks, so the streams of two
sections share a counter only where the sections overlap.
-/
namespace NxObject.Archive
open Outcome Placement CounterMode Digests

variable {H : Bytes → Digest}

def AES_BLOCK_SIZE : ℕ := 0x10

def CtrSection.stream (planned : CtrSection) : List ℕ :=
  CounterMode.stream planned.counter.toList
    (blockCount AES_BLOCK_SIZE (planned.range.2 - planned.range.1))

lemma ofBe_sectionCounter {offset : ℕ} (h : offset / 0x10 < 2 ^ 64) :
    ofBe (sectionCounter (zeroes 8) offset).toList = offset / 0x10 := by
  have hzero : ofBe (zeroes 8).toList.reverse = 0 := by decide
  have hlt : offset / 0x10 < 256 ^ 8 := by
    rw [show (256 : ℕ) ^ 8 = 2 ^ 64 by norm_num]
    exact h
  change ofBe ((zeroes 8).toList.reverse ++ toBe 8 (offset / 0x10)) = _
  rw [ofBe_append, ofBe_toBe_of_lt hlt, hzero, Nat.zero_mul, Nat.zero_add]

namespace NcaBuilder
variable (b : NcaBuilder)

/-- Slot `i` holds a section that is to be encrypted. -/
def encrypts (i : Fin NCA_SECTION_COUNT) : Bool := (b.sections i).any (·.encryption = .ctr)

/-- What is planned for slot `i`. -/
def planned (H : Bytes → Digest) (i : Fin NCA_SECTION_COUNT) : CtrSection where
  range := (b.slotStart H i - NCA_HEADER_SIZE, b.slotStart H i + b.chunkSize H i - NCA_HEADER_SIZE)
  counter := sectionCounter (zeroes 8) (b.slotStart H i)

def plan (H : Bytes → Digest) (slots : List (Fin NCA_SECTION_COUNT)) : List CtrSection :=
  (slots.filter b.encrypts).map (b.planned H)

variable {b}

lemma encrypts_iff {i : Fin NCA_SECTION_COUNT} :
    b.encrypts i = true ↔ ∃ sect, b.sections i = some sect ∧ sect.encryption = .ctr := by
  rw [encrypts, Option.any_eq_true]
  simp

lemma fsHeader_cryptType (i : Fin NCA_SECTION_COUNT) :
    (b.fsHeader H i).cryptType = NcaCryptType.ctr.toU8 ↔ b.encrypts i = true := by
  rw [encrypts_iff, fsHeader]
  cases hsect : b.sections i with
  | none => simp [EMPTY_FS_HEADER, NcaCryptType.toU8]
  | some sect =>
    obtain ⟨data, encryption⟩ := sect
    cases encryption <;> simp [Section.fsHeader, SectionEncryption.cryptType, NcaCryptType.toU8]

lemma planSection_header {ε : Type} (h : b.Fits H) (sections : List CtrSection)
    (i : Fin NCA_SECTION_COUNT) :
    (planSection (b.header H) sections i : Outcome ε _) = ok (sections ++ b.plan H [i]) := by
  unfold planSection
  dsimp only
  by_cases hcrypt : ((b.header H).fsHeaders i).cryptType = NcaCryptType.ctr.toU8
  · have hencrypts := (fsHeader_cryptType i).mp hcrypt
    obtain ⟨sect, hsect, -⟩ := encrypts_iff.mp hencrypts
    have hctr : ((b.header H).fsHeaders i).sectionCtr = zeroes 8 := by
      change (b.fsHeader H i).sectionCtr = _
      rw [fsHeader, hsect]
      rfl
    have hstart : NCA_HEADER_SIZE ≤ b.slotStart H i := Nat.le_add_right _ _
    have hplan : b.plan H [i] = [b.planned H i] := by simp [plan, hencrypts]
    rw [if_neg (not_not.mpr hcrypt), mediaStart_placed hsect h, mediaEnd_placed hsect h,
      sub_of_le hstart, sub_of_le (by omega), hctr, hplan]
    rfl
  · have hplan : b.plan H [i] = [] := by
      have hencrypts : ¬b.encrypts i = true := fun hi => hcrypt ((fsHeader_cryptType i).mpr hi)
      simp [plan, hencrypts]
    rw [if_pos hcrypt, hplan, List.append_nil, pure_eq]

lemma foldlM_planSection {ε : Type} (h : b.Fits H) (slots : List (Fin NCA_SECTION_COUNT))
    (sections : List CtrSection) :
    (slots.foldlM (planSection (b.header H)) sections : Outcome ε _) =
      ok (sections ++ b.plan H slots) := by
  induction slots generalizing sections with
  | nil => simp [plan]
  | cons i slots ih =>
    have hplan : b.plan H (i :: slots) = b.plan H [i] ++ b.plan H slots := by
      rw [plan, plan, plan, ← List.map_append, ← List.filter_append, List.singleton_append]
    rw [List.foldlM_cons, planSection_header h, ok_bind, ih, hplan, List.append_assoc]

theorem ctrSections_eq {ε : Type} (h : b.Fits H) :
    (PlainNca.ctrSections ⟨b.header H, b.body H⟩ : Outcome ε _) =
      ok (b.plan H (List.finRange NCA_SECTION_COUNT)) :=
  foldlM_planSection h _ []

/-! ## The planned sections -/

lemma planned_range (i : Fin NCA_SECTION_COUNT) :
    (b.planned H i).range.1 + NCA_HEADER_SIZE = b.slotStart H i ∧
      (b.planned H i).range.2 + NCA_HEADER_SIZE = b.slotStart H i + b.chunkSize H i := by
  have hstart : NCA_HEADER_SIZE ≤ b.slotStart H i := Nat.le_add_right _ _
  exact ⟨Nat.sub_add_cancel hstart, Nat.sub_add_cancel (by omega)⟩

lemma planned_inside (i : Fin NCA_SECTION_COUNT) :
    (b.planned H i).range.1 ≤ (b.planned H i).range.2 ∧
      (b.planned H i).range.2 ≤ (b.body H).length ∧ AES_BLOCK_SIZE ∣ (b.planned H i).range.1 := by
  obtain ⟨hfirst, hlast⟩ := planned_range (H := H) (b := b) i
  have hle := slotStart_add_le (b := b) (H := H) i
  refine ⟨by omega, by omega, ?_⟩
  have hdvd : AES_BLOCK_SIZE ∣ b.slotStart H i := dvd_trans (by decide) (slotStart_dvd i)
  exact (Nat.dvd_sub hdvd (by decide) : AES_BLOCK_SIZE ∣ b.slotStart H i - NCA_HEADER_SIZE)

lemma view_counter {i : Fin NCA_SECTION_COUNT} (hi : b.encrypts i = true) :
    ∃ view, b.view H i = some view ∧ view.encryption = .ctr ∧
      view.counter = some (b.planned H i).counter ∧
      view.range = ((b.planned H i).range.1 + NCA_HEADER_SIZE,
        (b.planned H i).range.2 + NCA_HEADER_SIZE) := by
  obtain ⟨sect, hsect, hctr⟩ := encrypts_iff.mp hi
  obtain ⟨hfirst, hlast⟩ := planned_range (H := H) (b := b) i
  refine ⟨_, by rw [view, hsect, Option.map_some], ?_, ?_, ?_⟩
  · rw [(sect.readsAs (H := H) _ _ _).encryption, hctr]
    rfl
  · rw [NcaSection.counter, (sect.readsAs (H := H) _ _ _).encryption, hctr]
    rfl
  · rw [hfirst, hlast]

lemma planned_stream {i j : Fin NCA_SECTION_COUNT} (h : b.Fits H) (hi : b.encrypts i = true)
    (hj : b.encrypts j = true) (hij : i < j) :
    (b.planned H i).stream.Disjoint (b.planned H j).stream := by
  obtain ⟨si, hsi, -⟩ := encrypts_iff.mp hi
  obtain ⟨sj, hsj, -⟩ := encrypts_iff.mp hj
  have hlti := h.addressable i si hsi
  have hltj := h.addressable j sj hsj
  have hle := slotStart_add_le_slotStart (b := b) (H := H) hij
  have hunit : MEDIA_UNIT_SIZE = 0x200 := rfl
  obtain ⟨m, hm⟩ := slotStart_dvd (b := b) (H := H) i
  obtain ⟨n, hn⟩ := chunkSize_dvd (b := b) (H := H) i
  rw [hunit] at hm hn hlti hltj
  have hsizei : (b.planned H i).range.2 - (b.planned H i).range.1 = b.chunkSize H i := by
    obtain ⟨hfirst, hlast⟩ := planned_range (H := H) (b := b) i
    omega
  have hsizej : (b.planned H j).range.2 - (b.planned H j).range.1 = b.chunkSize H j := by
    obtain ⟨hfirst, hlast⟩ := planned_range (H := H) (b := b) j
    omega
  have hcounti : ofBe (b.planned H i).counter.toList = b.slotStart H i / 0x10 :=
    ofBe_sectionCounter (by omega)
  have hcountj : ofBe (b.planned H j).counter.toList = b.slotStart H j / 0x10 :=
    ofBe_sectionCounter (by omega)
  have hrange : (256 : ℕ) ^ (b.planned H j).counter.toList.length = 2 ^ 128 := by
    rw [List.Vector.toList_length]
    norm_num
  rw [CtrSection.stream, CtrSection.stream, hsizei, hsizej]
  refine disjoint_stream ?_ ?_ (by rw [List.Vector.toList_length, List.Vector.toList_length])
  · rw [hcounti, hcountj]
    change _ + (b.chunkSize H i + (0x10 - 1)) / 0x10 ≤ _
    omega
  · rw [hrange, hcountj]
    change _ + (b.chunkSize H j + (0x10 - 1)) / 0x10 ≤ _
    omega

end NcaBuilder

/-- The plan of a built archive lists the sections to encrypt in slot order, each with the counter and
the place the reader gives it, and no counter is used for two sections. -/
theorem build_ctrSections {ε : Type} {b : NcaBuilder} {plain : PlainNca} (h : b.build H = ok plain) :
    ∃ nca plan, Nca.tryFromBytes plain.toBytes = ok nca ∧ (plain.ctrSections : Outcome ε _) = ok plan ∧
      List.Forall₂ (fun (i : Fin NCA_SECTION_COUNT) (planned : CtrSection) =>
          ∃ view, (nca.sectionAt i : Outcome ε _) = ok (some view) ∧ view.encryption = .ctr ∧
            view.counter = some planned.counter ∧
            view.range = (planned.range.1 + NCA_HEADER_SIZE, planned.range.2 + NCA_HEADER_SIZE))
        ((List.finRange NCA_SECTION_COUNT).filter b.encrypts) plan ∧
      (∀ planned ∈ plan, planned.range.1 ≤ planned.range.2 ∧
        planned.range.2 ≤ plain.body.length ∧ AES_BLOCK_SIZE ∣ planned.range.1) ∧
      plan.Pairwise (fun p q => p.range.2 ≤ q.range.1) ∧
      plan.Pairwise fun p q => p.stream.Disjoint q.stream := by
  obtain ⟨rfl, hfits⟩ := NcaBuilder.build_eq_ok.mp h
  have hordered : ((List.finRange NCA_SECTION_COUNT).filter b.encrypts).Pairwise fun i j =>
      i < j ∧ b.encrypts i = true ∧ b.encrypts j = true := by
    have hlt : ((List.finRange NCA_SECTION_COUNT).filter b.encrypts).Pairwise (· < ·) :=
      (List.pairwise_lt_finRange _).filter _
    refine hlt.imp_of_mem fun {i j} hi hj hij => ⟨hij, ?_, ?_⟩
    · exact (List.mem_filter.mp hi).2
    · exact (List.mem_filter.mp hj).2
  refine ⟨_, _, NcaBuilder.tryFromBytes_image hfits, NcaBuilder.ctrSections_eq hfits, ?_, ?_, ?_, ?_⟩
  · refine List.forall₂_map_right_iff.mpr (List.forall₂_same.mpr fun i hi => ?_)
    obtain ⟨view, hview, hencryption, hcounter, hrange⟩ :=
      NcaBuilder.view_counter (H := H) (List.mem_filter.mp hi).2
    exact ⟨view, (NcaBuilder.sectionAt_image hfits i).trans (congrArg ok hview), hencryption, hcounter,
      hrange⟩
  · intro planned hplanned
    obtain ⟨i, -, rfl⟩ := List.mem_map.mp hplanned
    exact NcaBuilder.planned_inside i
  · refine List.pairwise_map.mpr (hordered.imp fun {i j} hij => ?_)
    have hle := NcaBuilder.slotStart_add_le_slotStart (b := b) (H := H) hij.1
    exact Nat.sub_le_sub_right hle NCA_HEADER_SIZE
  · exact List.pairwise_map.mpr (hordered.imp fun hij =>
      NcaBuilder.planned_stream hfits hij.2.1 hij.2.2 hij.1)

def encryptedArchive : NcaBuilder :=
  { contentType := .program
    titleId := 1
    sections := fun _ => some ⟨.partition [7] 1, .ctr⟩ }

lemma encryptedArchive_build :
    encryptedArchive.build (fun _ => zeroes HASH_SIZE) =
      ok ⟨encryptedArchive.header fun _ => zeroes HASH_SIZE,
        encryptedArchive.body fun _ => zeroes HASH_SIZE⟩ := by
  have hbody : (encryptedArchive.body fun _ => zeroes HASH_SIZE).length = 0x1000 := by
    decide +kernel
  refine NcaBuilder.build_eq_ok.mpr ⟨rfl, fun i sect hsect => ?_, fun i sect _ => ?_, ?_⟩
  · obtain rfl : ⟨.partition [7] 1, .ctr⟩ = sect := Option.some.inj hsect
    exact (by decide : (1 : UInt32) ≠ 0)
  · have hle := NcaBuilder.slotStart_add_le (b := encryptedArchive)
      (H := fun _ => zeroes HASH_SIZE) i
    rw [hbody] at hle
    exact lt_of_le_of_lt hle (by decide)
  · rw [hbody]
    decide

theorem build_ctrSections_encrypted : ∃ plain plan,
    encryptedArchive.build (fun _ => zeroes HASH_SIZE) = ok plain ∧
      (plain.ctrSections : Outcome Unit _) = ok plan ∧ plan.length = 4 ∧
      plan.Pairwise fun p q => p.stream.Disjoint q.stream := by
  obtain ⟨nca, plan, -, hplan, hlisted, -, -, hdisjoint⟩ :=
    build_ctrSections (ε := Unit) encryptedArchive_build
  exact ⟨_, plan, encryptedArchive_build, hplan, hlisted.length_eq.symm.trans (by decide), hdisjoint⟩

end NxObject.Archive
