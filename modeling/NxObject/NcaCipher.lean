import NxObject.CtrCipher
import NxObject.NcaEncryption
import NxObject.NcaReading

/-!
# Encrypting a built NCA by its plan

The caller encrypts the planned ranges of the body in place. The archive is still accepted then, since its
header is in the clear, and the counters that the reader works out decrypt every section, from any block on.
-/
namespace NxObject.Archive
open Outcome Placement CounterMode Digests

variable {H : Bytes → Digest} {E : Bytes → Bytes}

def encryptSection (E : Bytes → Bytes) (body : Bytes) (planned : CtrSection) : Bytes :=
  inPlace (crypt E planned.counter.toList) planned.range body

def PlainNca.encrypt (E : Bytes → Bytes) (plan : List CtrSection) (plain : PlainNca) : PlainNca :=
  { plain with body := plan.foldl (encryptSection E) plain.body }

/-- A section of an encrypted archive is decrypted to a section, from any block on, with the counter that the
offset of the block gives; the counter of the first block is the reader's. -/
structure NcaSection.Decrypts (E : Bytes → Bytes) (encrypted view : NcaSection) : Prop where
  fsHeader : encrypted.fsHeader = view.fsHeader
  range : encrypted.range = view.range
  plain : encrypted.counter = none → encrypted.bytes = view.bytes ∧ encrypted.data = view.data
  counter : ∀ counter, encrypted.counter = some counter →
    counter = sectionCounter encrypted.fsHeader.sectionCtr encrypted.range.1
  bytes : ∀ counter, encrypted.counter = some counter → ∀ offset, AES_BLOCK_SIZE ∣ offset →
    offset ≤ view.bytes.length →
    crypt E (sectionCounter encrypted.fsHeader.sectionCtr (encrypted.range.1 + offset)).toList
      (encrypted.bytes.drop offset) = view.bytes.drop offset

namespace NcaBuilder
variable {b : NcaBuilder}

def encryptedChunk (E : Bytes → Bytes) (H : Bytes → Digest) (b : NcaBuilder) (i : Fin NCA_SECTION_COUNT) : Bytes :=
  if b.encrypts i then crypt E (b.planned H i).counter.toList (b.chunk H i) else b.chunk H i

lemma encryptedChunk_length (i : Fin NCA_SECTION_COUNT) :
    (b.encryptedChunk E H i).length = b.chunkSize H i := by
  rw [encryptedChunk]
  split_ifs
  · exact crypt_length _
  · rfl

lemma foldl_encryptSection {done rest : List (Fin NCA_SECTION_COUNT)}
    (hsplit : List.finRange NCA_SECTION_COUNT = done ++ rest) :
    (b.plan H rest).foldl (encryptSection E) (done.flatMap (b.encryptedChunk E H) ++ rest.flatMap (b.chunk H)) =
      (List.finRange NCA_SECTION_COUNT).flatMap (b.encryptedChunk E H) := by
  induction rest generalizing done with
  | nil =>
    rw [hsplit]
    simp [plan]
  | cons i rest ih =>
    have hsplit' : List.finRange NCA_SECTION_COUNT = (done ++ [i]) ++ rest := by
      rw [hsplit, List.append_assoc, List.singleton_append]
    have hdone : (done ++ [i]).flatMap (b.encryptedChunk E H) =
        done.flatMap (b.encryptedChunk E H) ++ b.encryptedChunk E H i := by
      rw [List.flatMap_append, List.flatMap_singleton]
    have hencrypted : (done.flatMap (b.encryptedChunk E H)).length = total (b.chunkSize H) done :=
      length_flatMap_eq _ fun j _ => encryptedChunk_length j
    have hplain : (done.flatMap (b.chunk H)).length = total (b.chunkSize H) done := length_flatMap_eq _ fun _ _ => rfl
    have hstart := slotStart_of_append (H := H) (b := b) hsplit
    have hih := ih hsplit'
    rw [hdone] at hih
    rw [← hih, List.flatMap_cons]
    by_cases hi : b.encrypts i = true
    · have hplan : b.plan H (i :: rest) = b.planned H i :: b.plan H rest := by
        rw [plan, plan, List.filter_cons_of_pos hi, List.map_cons]
      obtain ⟨hfirst, hlast⟩ := planned_range (H := H) (b := b) i
      have hsize : (b.chunk H i).length = b.chunkSize H i := rfl
      have hsection : encryptSection E (done.flatMap (b.encryptedChunk E H) ++ (b.chunk H i ++ rest.flatMap (b.chunk H)))
          (b.planned H i) = done.flatMap (b.encryptedChunk E H) ++ b.encryptedChunk E H i ++ rest.flatMap (b.chunk H) := by
        rw [encryptSection, inPlace_append _ _ (by omega) (by omega), encryptedChunk, if_pos hi]
      rw [hplan, List.foldl_cons, hsection]
    · have hplan : b.plan H (i :: rest) = b.plan H rest := by rw [plan, plan, List.filter_cons_of_neg hi]
      rw [hplan, encryptedChunk, if_neg hi, List.append_assoc]

def encryptedImage (E : Bytes → Bytes) (H : Bytes → Digest) (b : NcaBuilder) : Bytes :=
  NcaHeader.codec.enc (b.header H) ++ (List.finRange NCA_SECTION_COUNT).flatMap (b.encryptedChunk E H)

lemma encrypt_toBytes : (PlainNca.encrypt E (b.plan H (List.finRange NCA_SECTION_COUNT)) ⟨b.header H, b.body H⟩).toBytes =
    b.encryptedImage E H := by
  have hfold := foldl_encryptSection (E := E) (H := H) (b := b) (List.nil_append _).symm
  rw [List.flatMap_nil, List.nil_append] at hfold
  rw [encryptedImage, ← hfold]
  rfl

lemma encryptedImage_length : (b.encryptedImage E H).length = (b.image H).length := by
  have hencrypted : ((List.finRange NCA_SECTION_COUNT).flatMap (b.encryptedChunk E H)).length =
      total (b.chunkSize H) (List.finRange NCA_SECTION_COUNT) :=
    length_flatMap_eq _ fun j _ => encryptedChunk_length j
  rw [encryptedImage, image, List.length_append, List.length_append, hencrypted, body_length]

lemma encryptedChunk_at (i : Fin NCA_SECTION_COUNT) : ∃ pre post,
    b.encryptedImage E H = pre ++ (b.encryptedChunk E H i ++ post) ∧ pre.length = b.slotStart H i := by
  obtain ⟨pre, post, hbody, hpre⟩ := flatMap_at (fun j _ => encryptedChunk_length (E := E) (H := H) (b := b) j)
    (List.mem_finRange i)
  refine ⟨NcaHeader.codec.enc (b.header H) ++ pre, post, ?_, ?_⟩
  · rw [encryptedImage, hbody, List.append_assoc]
  · rw [List.length_append, Codec.enc_length, NcaHeader.codec_size, hpre, slotStart]

lemma tryFromBytes_encryptedImage (h : b.Fits H) : Nca.tryFromBytes (b.encryptedImage E H) =
    ok ⟨b.encryptedImage E H, b.header H, b.contentType⟩ := by
  obtain ⟨-, hvalid⟩ := Nca.tryFromBytes_eq_ok.mp (tryFromBytes_image h)
  refine Nca.tryFromBytes_eq_ok.mpr ⟨rfl, Codec.fromPrefix_append _ _ _, hvalid.magic, hvalid.contentType, fun i => ?_⟩
  change checkSection (b.header H) (b.encryptedImage E H).length i = ok ()
  rw [encryptedImage_length]
  exact hvalid.sections i

def encryptedView (E : Bytes → Bytes) (H : Bytes → Digest) (b : NcaBuilder) (i : Fin NCA_SECTION_COUNT) :
    Option NcaSection :=
  (b.sections i).map fun sect =>
    { index := i
      range := (b.slotStart H i, b.slotStart H i + b.chunkSize H i)
      fsHeader := sect.fsHeader H
      bytes := b.encryptedChunk E H i
      data := ((b.encryptedChunk E H i).take (sect.dataOffset H + sect.data.contents.length)).drop (sect.dataOffset H) }

lemma sectionAt_encryptedImage {ε : Type} (h : b.Fits H) (i : Fin NCA_SECTION_COUNT) :
    (Nca.sectionAt ⟨b.encryptedImage E H, b.header H, b.contentType⟩ i : Outcome ε _) =
      ok (b.encryptedView E H i) := by
  cases hsect : b.sections i with
  | none => simp [Nca.sectionAt, sectionRange_empty hsect, encryptedView, hsect]
  | some sect =>
    have hfs : (b.header H).fsHeaders i = sect.fsHeader H := by
      change b.fsHeader H i = _
      rw [fsHeader, hsect]
    have hhash : hashType i (sect.fsHeader H).hashType = .ok sect.data.hashType := hashType_toU8 i _
    obtain ⟨pre, post, himage, hpre⟩ := encryptedChunk_at (E := E) (b := b) (H := H) i
    have hbytes : (slice (b.encryptedImage E H) (b.slotStart H i) (b.slotStart H i + b.chunkSize H i) :
        Outcome ε _) = ok (b.encryptedChunk E H i) :=
      slice_append himage hpre.symm (by rw [hpre, encryptedChunk_length])
    have hlen := encryptedChunk_length (E := E) (H := H) (b := b) i
    obtain ⟨pad, hchunk⟩ := chunk_eq (H := H) hsect
    obtain ⟨front, hstored, hfront⟩ := sect.stored_eq (H := H)
    have hfits : sect.dataOffset H + sect.data.contents.length ≤ (b.encryptedChunk E H i).length := by
      rw [hlen, chunkSize, hchunk, hstored, List.length_append, List.length_append, hfront]
      exact Nat.le_add_right _ _
    have hdata := slice_of_le (ε := ε) (Nat.le_add_right (sect.dataOffset H) sect.data.contents.length) hfits
    have hrange : dataRange i ((b.header H).fsHeaders i) sect.data.hashType (b.encryptedChunk E H i).length =
        .ok _ := hlen ▸ dataRange_placed hsect h
    rw [hfs] at hrange
    have hplaced := sectionRange_placed hsect h
    rw [← encryptedImage_length (E := E)] at hplaced
    simp only [Nca.sectionAt, dif_pos i.isLt, Fin.eta, hplaced, hbytes, ok_bind, hhash, hrange, hdata, hfs, pure_eq,
      encryptedView, hsect, Option.map_some]

lemma ofBe_sectionCounter_add {start offset : ℕ} (hlt : start + offset < 2 ^ 64) (hdvd : AES_BLOCK_SIZE ∣ offset) :
    ofBe (sectionCounter (zeroes 8) (start + offset)).toList =
      ofBe (sectionCounter (zeroes 8) start).toList + offset / AES_BLOCK_SIZE := by
  obtain ⟨k, rfl⟩ := hdvd
  have hblock : AES_BLOCK_SIZE = 0x10 := rfl
  rw [hblock] at hlt ⊢
  rw [ofBe_sectionCounter (by omega), ofBe_sectionCounter (by omega)]
  omega

lemma counter_placed (sect : Section) (index : ℕ) (range : ℕ × ℕ) (bytes data : Bytes) :
    NcaSection.counter ⟨index, range, sect.fsHeader H, bytes, data⟩ =
      if sect.encryption = .ctr then some (sectionCounter (zeroes 8) range.1) else none := by
  obtain ⟨contents, encryption⟩ := sect
  have hcrypt := cryptType_toU8 index encryption.cryptType
  change cryptType index ((Section.fsHeader H ⟨contents, encryption⟩).cryptType) = _ at hcrypt
  rw [NcaSection.counter, NcaSection.encryption, hcrypt]
  cases encryption <;> rfl

lemma decrypts {i : Fin NCA_SECTION_COUNT} {encrypted view : NcaSection} (h : b.Fits H)
    (hencrypted : b.encryptedView E H i = some encrypted) (hview : b.view H i = some view) :
    NcaSection.Decrypts E encrypted view := by
  obtain ⟨sect, hsect, rfl⟩ := view_eq_some hview
  rw [encryptedView, hsect, Option.map_some, Option.some.injEq] at hencrypted
  subst hencrypted
  constructor
  case fsHeader => rfl
  case range => rfl
  case plain =>
    intro hnone
    rw [counter_placed] at hnone
    have hi : ¬b.encrypts i = true := by
      intro hi
      obtain ⟨sect', hsect', hctr⟩ := encrypts_iff.mp hi
      obtain rfl := Option.some.inj (hsect.symm.trans hsect')
      rw [if_pos hctr] at hnone
      cases hnone
    obtain ⟨pad, hchunk⟩ := chunk_eq (H := H) hsect
    obtain ⟨front, hstored, hfront⟩ := sect.stored_eq (H := H)
    simp only [encryptedChunk, if_neg hi, hchunk, hstored, ← hfront, List.append_assoc, true_and]
    rw [← List.length_append, ← List.append_assoc, List.take_left, List.drop_left]
  case counter =>
    intro counter hcounter
    rw [counter_placed] at hcounter
    split_ifs at hcounter
    exact (Option.some.inj hcounter).symm
  case bytes =>
    intro counter hcounter offset hdvd hle
    rw [counter_placed] at hcounter
    split_ifs at hcounter with hctr
    have hi : b.encrypts i = true := encrypts_iff.mpr ⟨sect, hsect, hctr⟩
    have hlt := h.addressable i sect hsect
    have hunit : 2 ^ 32 * MEDIA_UNIT_SIZE < 2 ^ 64 := by decide
    change offset ≤ b.chunkSize H i at hle
    have hadvance : ofBe (sectionCounter (zeroes 8) (b.slotStart H i + offset)).toList =
        ofBe (sectionCounter (zeroes 8) (b.slotStart H i)).toList + offset / AES_BLOCK_SIZE :=
      ofBe_sectionCounter_add (by omega) hdvd
    have hblock : (sectionCounter (zeroes 8) (b.slotStart H i)).toList.length = AES_BLOCK_SIZE :=
      List.Vector.toList_length _
    have hdrop := drop_crypt (E := E) (by rw [hblock]; decide)
      ((List.Vector.toList_length _).trans (List.Vector.toList_length _).symm) hadvance (b.chunk H i)
    rw [hblock, Nat.mul_div_cancel' hdvd] at hdrop
    change crypt E (sectionCounter (zeroes 8) (b.slotStart H i + offset)).toList
      ((b.encryptedChunk E H i).drop offset) = (b.chunk H i).drop offset
    rw [encryptedChunk, if_pos hi, planned, hdrop, crypt_crypt]

end NcaBuilder

/-- A built archive whose planned sections are encrypted in place is accepted, and every section that the reader
hands out is decrypted with its counter to the section of the archive, from any block on. -/
theorem build_decrypts {ε : Type} {b : NcaBuilder} {plain : PlainNca} (E : Bytes → Bytes)
    (h : b.build H = ok plain) :
    ∃ nca encrypted plan, Nca.tryFromBytes plain.toBytes = ok nca ∧ (plain.ctrSections : Outcome ε _) = ok plan ∧
      Nca.tryFromBytes (plain.encrypt E plan).toBytes = ok encrypted ∧
      ∀ i : Fin NCA_SECTION_COUNT, ∃ before after, (encrypted.sectionAt i : Outcome ε _) = ok before ∧
        (nca.sectionAt i : Outcome ε _) = ok after ∧ Option.Rel (NcaSection.Decrypts E) before after := by
  obtain ⟨rfl, hfits⟩ := NcaBuilder.build_eq_ok.mp h
  refine ⟨_, _, _, NcaBuilder.tryFromBytes_image hfits, NcaBuilder.ctrSections_eq hfits,
    (congrArg Nca.tryFromBytes NcaBuilder.encrypt_toBytes).trans (NcaBuilder.tryFromBytes_encryptedImage hfits),
    fun i => ⟨_, _, NcaBuilder.sectionAt_encryptedImage hfits i, NcaBuilder.sectionAt_image hfits i, ?_⟩⟩
  cases hsect : b.sections i with
  | none =>
    rw [NcaBuilder.encryptedView, NcaBuilder.view, hsect]
    exact Option.Rel.none
  | some sect =>
    obtain ⟨before, hbefore⟩ : ∃ before, b.encryptedView E H i = some before := by
      rw [NcaBuilder.encryptedView, hsect]
      exact ⟨_, rfl⟩
    obtain ⟨after, hafter⟩ : ∃ after, b.view H i = some after := by
      rw [NcaBuilder.view, hsect]
      exact ⟨_, rfl⟩
    rw [hbefore, hafter]
    exact Option.Rel.some (NcaBuilder.decrypts hfits hbefore hafter)

theorem build_decrypts_encrypted : ∃ plain encrypted plan,
    encryptedArchive.build (fun _ => zeroes HASH_SIZE) = ok plain ∧
      (plain.ctrSections : Outcome Unit _) = ok plan ∧
      Nca.tryFromBytes (plain.encrypt List.reverse plan).toBytes = ok encrypted := by
  obtain ⟨nca, encrypted, plan, -, hplan, haccepted, -⟩ :=
    build_decrypts (ε := Unit) List.reverse encryptedArchive_build
  exact ⟨_, encrypted, plan, encryptedArchive_build, hplan, haccepted⟩

end NxObject.Archive
