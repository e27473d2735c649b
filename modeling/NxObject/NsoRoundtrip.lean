import NxObject.NsoReading

/-!
# Reading back a built NSO

The stored segments follow the header in a row. A segment reads back from what is stored for it because
its compression bit says how it was stored, and its recorded size is the one it had before it was packed.
-/
namespace NxObject.Executable
open Outcome

variable {δ : Type}

/-! ## The image -/

namespace NsoBuilder
variable (lz4 : Packer δ) (sha256 : Bytes → Digest) (b : NsoBuilder) (text rodata data : Bytes)

def stored (segment : Bytes) : Bytes :=
  if b.compress then lz4.compress (padded segment 0x1000) else padded segment 0x1000

def rodataOffset : ℕ := 0x100 + (b.stored lz4 text).length

def dataOffset : ℕ := b.rodataOffset lz4 text + (b.stored lz4 rodata).length

def header : NsoHeader where
  magic := NSO_MAGIC
  version := 0
  reserved := 0
  flags := nsoFlags b.compress b.compress b.compress
  text := ⟨UInt32.ofNat 0x100, b.textVaddr, UInt32.ofNat (padded text 0x1000).length⟩
  moduleNameOffset := 1
  rodata := ⟨UInt32.ofNat (b.rodataOffset lz4 text), b.rodataVaddr,
    UInt32.ofNat (padded rodata 0x1000).length⟩
  moduleNameSize := 1
  data := ⟨UInt32.ofNat (b.dataOffset lz4 text rodata), b.dataVaddr,
    UInt32.ofNat (padded data 0x1000).length⟩
  bssSize := b.bssSize
  moduleId := b.moduleId.getD (List.Vector.replicate 0x20 0)
  textFileSize := UInt32.ofNat (b.stored lz4 text).length
  rodataFileSize := UInt32.ofNat (b.stored lz4 rodata).length
  dataFileSize := UInt32.ofNat (b.stored lz4 data).length
  reserved2 := List.Vector.replicate 0x1C 0
  embeddedOffset := 0
  embeddedSize := 0
  dynstrOffset := 0
  dynstrSize := 0
  dynsymOffset := 0
  dynsymSize := 0
  textHash := sha256 (padded text 0x1000)
  rodataHash := sha256 (padded rodata 0x1000)
  dataHash := sha256 (padded data 0x1000)

def image : Bytes :=
  NsoHeader.codec.enc (b.header lz4 sha256 text rodata data) ++ b.stored lz4 text ++
    b.stored lz4 rodata ++ b.stored lz4 data

def read : Nso := ⟨b.image lz4 sha256 text rodata data, b.header lz4 sha256 text rodata data⟩

structure Sets : Prop where
  hasText : b.text = some text
  hasRodata : b.rodata = some rodata
  hasData : b.data = some data

/-- Offsets and sizes fit the fields that record them. -/
structure Fits : Prop where
  textSize : (padded text 0x1000).length < 2 ^ 32
  rodataSize : (padded rodata 0x1000).length < 2 ^ 32
  dataSize : (padded data 0x1000).length < 2 ^ 32
  dataOffset : b.dataOffset lz4 text rodata < 2 ^ 32
  dataStored : (b.stored lz4 data).length < 2 ^ 32

/-- What is asked of a build: the image is accepted, every segment reads back as it was padded and agrees
with its recorded size and hash, and what is stored for the three tiles the file behind the header. -/
def ReadsBack : Prop :=
  ∃ image nso, b.build lz4 sha256 = ok image ∧ Nso.tryFromBytes image = ok nso ∧
    nso.text lz4 = ok (padded text 0x1000) ∧ nso.rodata lz4 = ok (padded rodata 0x1000) ∧
    nso.data lz4 = ok (padded data 0x1000) ∧
    (padded text 0x1000).length = nso.header.text.size.toNat ∧
    (padded rodata 0x1000).length = nso.header.rodata.size.toNat ∧
    (padded data 0x1000).length = nso.header.data.size.toNat ∧
    sha256 (padded text 0x1000) = nso.header.textHash ∧
    sha256 (padded rodata 0x1000) = nso.header.rodataHash ∧
    sha256 (padded data 0x1000) = nso.header.dataHash ∧
    nso.header.text.fileOffset.toNat = 0x100 ∧
    nso.header.text.fileOffset.toNat + nso.header.textFileSize.toNat =
      nso.header.rodata.fileOffset.toNat ∧
    nso.header.rodata.fileOffset.toNat + nso.header.rodataFileSize.toNat =
      nso.header.data.fileOffset.toNat ∧
    nso.header.data.fileOffset.toNat + nso.header.dataFileSize.toNat = image.length

variable {lz4 sha256 b text rodata data}

lemma image_length : (b.image lz4 sha256 text rodata data).length =
    b.dataOffset lz4 text rodata + (b.stored lz4 data).length := by
  rw [image, List.length_append, List.length_append, List.length_append, Codec.enc_length,
    NsoHeader.codec_size, dataOffset, rodataOffset]

section Building
variable (hsets : b.Sets text rodata data) (h : b.Fits lz4 text rodata data)
include h

variable (sha256) in
lemma read_toNat :
    (b.read lz4 sha256 text rodata data).header.text.fileOffset.toNat = 0x100 ∧
      (b.read lz4 sha256 text rodata data).header.textFileSize.toNat = (b.stored lz4 text).length ∧
      (b.read lz4 sha256 text rodata data).header.rodata.fileOffset.toNat = b.rodataOffset lz4 text ∧
      (b.read lz4 sha256 text rodata data).header.rodataFileSize.toNat = (b.stored lz4 rodata).length ∧
      (b.read lz4 sha256 text rodata data).header.data.fileOffset.toNat = b.dataOffset lz4 text rodata ∧
      (b.read lz4 sha256 text rodata data).header.dataFileSize.toNat = (b.stored lz4 data).length := by
  have hdataOffset := h.dataOffset
  have hrodata : b.rodataOffset lz4 text + (b.stored lz4 rodata).length = b.dataOffset lz4 text rodata := rfl
  have htext : 0x100 + (b.stored lz4 text).length = b.rodataOffset lz4 text := rfl
  refine ⟨rfl, UInt32.toNat_ofNat_of_lt' (lt_of_le_of_lt ?_ hdataOffset),
    UInt32.toNat_ofNat_of_lt' (lt_of_le_of_lt ?_ hdataOffset),
    UInt32.toNat_ofNat_of_lt' (lt_of_le_of_lt ?_ hdataOffset), UInt32.toNat_ofNat_of_lt' hdataOffset,
    UInt32.toNat_ofNat_of_lt' h.dataStored⟩ <;> omega

variable (sha256) in
lemma read_size :
    (b.read lz4 sha256 text rodata data).header.text.size.toNat = (padded text 0x1000).length ∧
      (b.read lz4 sha256 text rodata data).header.rodata.size.toNat = (padded rodata 0x1000).length ∧
      (b.read lz4 sha256 text rodata data).header.data.size.toNat = (padded data 0x1000).length :=
  ⟨UInt32.toNat_ofNat_of_lt' h.textSize, UInt32.toNat_ofNat_of_lt' h.rodataSize,
    UInt32.toNat_ofNat_of_lt' h.dataSize⟩

include hsets

theorem build_eq : b.build lz4 sha256 = ok (b.image lz4 sha256 text rodata data) := by
  have hdataOffset := h.dataOffset
  have hdataStored := h.dataStored
  have hrodata : b.rodataOffset lz4 text + (b.stored lz4 rodata).length = b.dataOffset lz4 text rodata := rfl
  have htext : 0x100 + (b.stored lz4 text).length = b.rodataOffset lz4 text := rfl
  have hpad : ∀ {segment : Bytes}, (padded segment 0x1000).length < 2 ^ 32 →
      (padToAlignment segment 0x1000 : Outcome BuildError _) = ok (padded segment 0x1000) :=
    fun hlt => padToAlignment_of_lt (by decide) (hlt.trans (by decide))
  have hstored : (if b.compress then
      (lz4.compress (padded text 0x1000), true, lz4.compress (padded rodata 0x1000), true,
        lz4.compress (padded data 0x1000), true)
      else (padded text 0x1000, false, padded rodata 0x1000, false, padded data 0x1000, false)) =
      (b.stored lz4 text, b.compress, b.stored lz4 rodata, b.compress, b.stored lz4 data, b.compress) := by
    simp only [stored]
    cases b.compress <;> rfl
  have hrodataOffset : (add32 0x100 ((b.stored lz4 text).length % 2 ^ 32) : Outcome BuildError _) =
      ok (b.rodataOffset lz4 text) := by
    rw [Nat.mod_eq_of_lt (by omega), add32_of_lt (by omega), htext]
  have hdata : (add32 (b.rodataOffset lz4 text) ((b.stored lz4 rodata).length % 2 ^ 32) :
      Outcome BuildError _) = ok (b.dataOffset lz4 text rodata) := by
    rw [Nat.mod_eq_of_lt (by omega), add32_of_lt (by omega), hrodata]
  have hcapacity : (withCapacity (0x100 + (b.stored lz4 text).length + (b.stored lz4 rodata).length +
      (b.stored lz4 data).length) : Outcome BuildError _) = ok () := withCapacity_of_lt (by omega)
  simp only [build, hsets.hasText, hsets.hasRodata, hsets.hasData, okOr_some, ok_bind, hpad h.textSize,
    hpad h.rodataSize, hpad h.dataSize, hstored, hrodataOffset, hdata, hcapacity, pure_eq]
  rfl

end Building

/-! ## Reading back -/

lemma nsoFlags_bits (compress : Bool) :
    (nsoFlags compress compress compress &&& 0b111111 &&& TEXT_COMPRESS = TEXT_COMPRESS ↔ compress) ∧
      (nsoFlags compress compress compress &&& 0b111111 &&& RODATA_COMPRESS = RODATA_COMPRESS ↔
        compress) ∧
      (nsoFlags compress compress compress &&& 0b111111 &&& DATA_COMPRESS = DATA_COMPRESS ↔ compress) := by
  cases compress <;> decide

variable (lz4 sha256 b text rodata data) in
lemma read_flags :
    ((b.read lz4 sha256 text rodata data).flags &&& TEXT_COMPRESS = TEXT_COMPRESS ↔ b.compress) ∧
      ((b.read lz4 sha256 text rodata data).flags &&& RODATA_COMPRESS = RODATA_COMPRESS ↔ b.compress) ∧
      ((b.read lz4 sha256 text rodata data).flags &&& DATA_COMPRESS = DATA_COMPRESS ↔ b.compress) :=
  nsoFlags_bits b.compress

lemma expanded_stored (hlz4 : lz4.Lossless) {nso : Nso} {flag : UInt32} {segment : Bytes}
    (hflag : nso.flags &&& flag = flag ↔ b.compress) :
    nso.expanded lz4 (b.stored lz4 segment) (padded segment 0x1000).length flag =
      .ok (padded segment 0x1000) := by
  rw [Nso.expanded, stored]
  by_cases hcompress : b.compress
  · rw [if_pos (hflag.mpr hcompress), if_pos hcompress, hlz4]
  · rw [if_neg (fun hset => hcompress (hflag.mp hset)), if_neg hcompress]

section Reading
variable (h : b.Fits lz4 text rodata data)
include h

variable (sha256) in
lemma read_valid : (b.read lz4 sha256 text rodata data).Valid := by
  obtain ⟨htext, htextStored, hrodata, hrodataStored, hdata, hdataStored⟩ :=
    read_toNat sha256 h
  have hlen : (b.read lz4 sha256 text rodata data).bytes.length =
      0x100 + (b.stored lz4 text).length + (b.stored lz4 rodata).length + (b.stored lz4 data).length :=
    image_length
  rw [rodataOffset] at hrodata
  rw [dataOffset, rodataOffset] at hdata
  refine ⟨?_, rfl, ?_, ?_, ?_⟩
  · have himage : (b.read lz4 sha256 text rodata data).bytes =
        NsoHeader.codec.enc (b.header lz4 sha256 text rodata data) ++
          (b.stored lz4 text ++ (b.stored lz4 rodata ++ b.stored lz4 data)) := by
      simp only [read, image, List.append_assoc]
    rw [himage]
    exact Codec.fromPrefix_append _ _ _
  · omega
  · omega
  · omega

variable (sha256) in
lemma read_stored :
    (b.read lz4 sha256 text rodata data).storedBytes (b.read lz4 sha256 text rodata data).header.text
        (b.read lz4 sha256 text rodata data).header.textFileSize = b.stored lz4 text ∧
      (b.read lz4 sha256 text rodata data).storedBytes (b.read lz4 sha256 text rodata data).header.rodata
        (b.read lz4 sha256 text rodata data).header.rodataFileSize = b.stored lz4 rodata ∧
      (b.read lz4 sha256 text rodata data).storedBytes (b.read lz4 sha256 text rodata data).header.data
        (b.read lz4 sha256 text rodata data).header.dataFileSize = b.stored lz4 data := by
  obtain ⟨htext, htextStored, hrodata, hrodataStored, hdata, hdataStored⟩ :=
    read_toNat sha256 h
  obtain ⟨header, hheader⟩ : ∃ header, b.header lz4 sha256 text rodata data = header := ⟨_, rfl⟩
  have hlen : (NsoHeader.codec.enc header).length = 0x100 := Codec.enc_length _ _
  have himage : (b.read lz4 sha256 text rodata data).bytes = NsoHeader.codec.enc header ++
      (b.stored lz4 text ++ (b.stored lz4 rodata ++ b.stored lz4 data)) := by
    simp only [read, image, hheader, List.append_assoc]
  have hrodataImage : (b.read lz4 sha256 text rodata data).bytes =
      (NsoHeader.codec.enc header ++ b.stored lz4 text) ++ (b.stored lz4 rodata ++ b.stored lz4 data) := by
    rw [himage, List.append_assoc]
  have hdataImage : (b.read lz4 sha256 text rodata data).bytes =
      (NsoHeader.codec.enc header ++ b.stored lz4 text ++ b.stored lz4 rodata) ++
        (b.stored lz4 data ++ []) := by
    rw [hrodataImage, List.append_nil, List.append_assoc _ _ (b.stored lz4 data)]
  refine ⟨?_, ?_, ?_⟩
  · rw [Nso.storedBytes, htext, htextStored]
    exact sliceAt_eq_of_append himage hlen rfl
  · rw [Nso.storedBytes, hrodata, hrodataStored]
    exact sliceAt_eq_of_append hrodataImage (by rw [List.length_append, hlen, rodataOffset]) rfl
  · rw [Nso.storedBytes, hdata, hdataStored]
    exact sliceAt_eq_of_append hdataImage
      (by rw [List.length_append, List.length_append, hlen, dataOffset, rodataOffset]) rfl

end Reading

end NsoBuilder

/-- A build whose sizes and offsets fit their fields reads back, packed or not. -/
theorem build_readsBack {lz4 : Packer δ} (hlz4 : lz4.Lossless) (sha256 : Bytes → Digest)
    {b : NsoBuilder} {text rodata data : Bytes} (hsets : b.Sets text rodata data)
    (h : b.Fits lz4 text rodata data) : b.ReadsBack lz4 sha256 text rodata data := by
  obtain ⟨htext, htextStored, hrodata, hrodataStored, hdata, hdataStored⟩ :=
    NsoBuilder.read_toNat sha256 h
  obtain ⟨htextSize, hrodataSize, hdataSize⟩ := NsoBuilder.read_size sha256 h
  obtain ⟨htextBytes, hrodataBytes, hdataBytes⟩ := NsoBuilder.read_stored sha256 h
  obtain ⟨htextFlag, hrodataFlag, hdataFlag⟩ := NsoBuilder.read_flags lz4 sha256 b text rodata data
  have hvalid := NsoBuilder.read_valid sha256 h
  refine ⟨b.image lz4 sha256 text rodata data, b.read lz4 sha256 text rodata data,
    NsoBuilder.build_eq hsets h, Nso.tryFromBytes_eq_ok.mpr ⟨rfl, hvalid⟩, ?_, ?_, ?_, htextSize.symm,
    hrodataSize.symm, hdataSize.symm, rfl, rfl, rfl, htext, ?_, ?_, ?_⟩
  · rw [Nso.text_eq hvalid, htextBytes, htextSize, NsoBuilder.expanded_stored hlz4 htextFlag]
    rfl
  · rw [Nso.rodata_eq hvalid, hrodataBytes, hrodataSize, NsoBuilder.expanded_stored hlz4 hrodataFlag]
    rfl
  · rw [Nso.data_eq hvalid, hdataBytes, hdataSize, NsoBuilder.expanded_stored hlz4 hdataFlag]
    rfl
  · rw [htext, htextStored, hrodata, NsoBuilder.rodataOffset]
  · rw [hrodata, hrodataStored, hdata, NsoBuilder.dataOffset]
  · rw [hdata, hdataStored, NsoBuilder.image_length]

/-! ## A packer -/

def front (bytes : Bytes) : Bytes := bytes.rdropWhile (· == 0)

/-- The bytes are few, and many zeroes behind them. -/
def HasTail (bytes : Bytes) : Prop := (front bytes).length ≤ 13 ∧ (front bytes).length + 26 ≤ bytes.length

instance (bytes : Bytes) : Decidable (HasTail bytes) := inferInstanceAs (Decidable (_ ∧ _))

/-- Expands every block, and finds a match in the zeroes at the end only. -/
def runPacker : Packer Unit where
  compress bytes :=
    if HasTail bytes then Lz4.tailBlock (front bytes) (bytes.length - (front bytes).length)
    else Lz4.literalBlock bytes
  decompress block size :=
    match Lz4.decode block with
    | some bytes => if bytes.length ≤ size then .ok bytes else .error ()
    | none => .error ()

lemma runPacker_expandsBlocks : runPacker.ExpandsBlocks := by
  intro block n v
  change (match Lz4.decode block with | some bytes => _ | none => _) = _ ↔ _
  cases hdecode : Lz4.decode block with
  | none => simp
  | some bytes =>
    dsimp only
    split_ifs with hle
    · simp only [Except.ok.injEq, Option.some.injEq]
      exact ⟨fun heq => ⟨heq, heq ▸ hle⟩, And.left⟩
    · refine iff_of_false (by simp) ?_
      rintro ⟨heq, hle'⟩
      obtain rfl := Option.some.inj heq
      exact hle hle'

lemma front_append (bytes : Bytes) :
    front bytes ++ List.replicate (bytes.length - (front bytes).length) 0 = bytes := by
  have hsplit : bytes.rdropWhile (· == 0) ++ bytes.rtakeWhile (· == 0) = bytes := List.rdropWhile_append_rtakeWhile
  have hzeroes : bytes.rtakeWhile (· == 0) = List.replicate (bytes.rtakeWhile (· == 0)).length 0 :=
    List.eq_replicate_of_mem fun b hb => beq_iff_eq.mp (@List.mem_rtakeWhile_imp _ (· == 0) bytes b hb)
  have hlen := congrArg List.length hsplit
  rw [List.length_append] at hlen
  rw [front, show bytes.length - (bytes.rdropWhile (· == 0)).length = (bytes.rtakeWhile (· == 0)).length by omega,
    ← hzeroes]
  exact hsplit

lemma front_replicate (n : ℕ) : front (List.replicate n 0) = [] :=
  List.rdropWhile_eq_nil_iff.mpr fun _ hb => beq_iff_eq.mpr (List.eq_of_mem_replicate hb)

lemma hasTail_replicate {n : ℕ} (hn : 26 ≤ n) : HasTail (List.replicate n 0) := by
  rw [HasTail, front_replicate, List.length_nil, Nat.zero_add, List.length_replicate]
  exact ⟨Nat.zero_le 13, hn⟩

lemma compress_tail {bytes : Bytes} (h : HasTail bytes) : runPacker.compress bytes =
    Lz4.tailBlock (front bytes) (bytes.length - (front bytes).length) := if_pos h

lemma decode_compress (bytes : Bytes) : Lz4.decode (runPacker.compress bytes) = some bytes := by
  change Lz4.decode (if HasTail bytes then _ else _) = _
  split_ifs with htail
  · obtain ⟨hfront, hlen⟩ := htail
    rw [Lz4.decode_tailBlock hfront (by omega), front_append]
  · exact Lz4.decode_literalBlock bytes

theorem runPacker_lossless : runPacker.Lossless := fun bytes =>
  (runPacker_expandsBlocks _ _ _).mpr ⟨decode_compress bytes, le_rfl⟩

lemma compress_length_le (bytes : Bytes) :
    (runPacker.compress bytes).length ≤ bytes.length + bytes.length / 255 + 11 := by
  change (if HasTail bytes then _ else Lz4.literalBlock bytes).length ≤ _
  split_ifs with htail
  · obtain ⟨-, hlen⟩ := htail
    rw [Lz4.tailBlock_length]
    omega
  · exact (Lz4.literalBlock_length_le bytes).trans (by omega)

def countingPage : Bytes := (List.range 0x800).flatMap fun n => [UInt8.ofNat (n / 256), UInt8.ofNat n]

lemma countingPage_length : countingPage.length = 0x1000 := by decide +kernel

/-- A full page, none, and one that is all but empty, stored packed. -/
def sampleNso : NsoBuilder := { text := some countingPage, rodata := some [], data := some [3] }

lemma sampleNso_fits : sampleNso.Fits runPacker countingPage [] [3] := by
  have hcompress : ∀ segment, sampleNso.stored runPacker segment =
      runPacker.compress (padded segment 0x1000) := fun _ => rfl
  have hpad : ∀ segment : Bytes, segment.length ≤ 0x1000 → (padded segment 0x1000).length ≤ 0x1000 := by
    intro segment hle
    rw [padded_length (by decide)]
    exact (Placement.alignUp_mono 0x1000 hle).trans (by decide)
  have hstored := fun segment => compress_length_le (padded segment 0x1000)
  have htext := hpad countingPage countingPage_length.le
  have hrodata := hpad [] (by decide)
  have hdata := hpad [3] (by decide)
  have htextStored := hstored countingPage
  have hrodataStored := hstored []
  have hdataStored := hstored [3]
  refine ⟨by omega, by omega, by omega, ?_, ?_⟩
  · rw [NsoBuilder.dataOffset, NsoBuilder.rodataOffset, hcompress, hcompress]
    omega
  · rw [hcompress]
    omega

theorem build_readsBack_packed :
    sampleNso.ReadsBack runPacker (fun _ => List.Vector.replicate 0x20 0) countingPage [] [3] :=
  build_readsBack runPacker_lossless _ ⟨rfl, rfl, rfl⟩ sampleNso_fits

/-! ## A segment too long for its field -/

def zeroText : Bytes := List.replicate (2 ^ 32) 0

lemma zeroText_length : zeroText.length = 2 ^ 32 := List.length_replicate

lemma padded_zeroText : padded zeroText 0x1000 = zeroText := by
  have hdvd : 0x1000 ∣ 2 ^ 32 := by decide
  rw [padded, zeroText_length, Placement.alignUp_of_dvd (by decide) hdvd, Nat.sub_self,
    List.replicate_zero, List.append_nil]

lemma padded_nil : padded [] 0x1000 = [] := by
  rw [padded, List.length_nil, Placement.alignUp_of_dvd (by decide) (Nat.dvd_zero _)]
  rfl

def zeroNso : NsoBuilder := { text := some zeroText, rodata := some [], data := some [] }

/-- What is stored of it fits the file, but the size of the text segment does not fit its field. -/
theorem zeroNso_not_readsBack :
    runPacker.Lossless ∧ zeroNso.Sets zeroText [] [] ∧
      (zeroNso.stored runPacker zeroText).length + (zeroNso.stored runPacker []).length +
        (zeroNso.stored runPacker []).length < 2 ^ 32 ∧
      ¬ zeroNso.ReadsBack runPacker (fun _ => List.Vector.replicate 0x20 0) zeroText [] [] := by
  have hcompress : ∀ segment, zeroNso.stored runPacker segment =
      runPacker.compress (padded segment 0x1000) := fun _ => rfl
  refine ⟨runPacker_lossless, ⟨rfl, rfl, rfl⟩, ?_, ?_⟩
  · have hfront : front zeroText = [] := front_replicate _
    have htext : zeroNso.stored runPacker zeroText = Lz4.tailBlock [] (2 ^ 32) := by
      have htail : HasTail zeroText := hasTail_replicate (by norm_num)
      rw [hcompress, padded_zeroText, compress_tail htail, hfront, zeroText_length, List.length_nil, Nat.sub_zero]
    have hempty : (zeroNso.stored runPacker []).length ≤ 11 := by
      rw [hcompress, padded_nil]
      exact compress_length_le []
    rw [htext, Lz4.tailBlock_length, List.length_nil]
    omega
  · rintro ⟨image, nso, -, -, -, -, -, hsize, -⟩
    have hlt := nso.header.text.size.toNat_lt
    rw [padded_zeroText, zeroText_length] at hsize
    omega

end NxObject.Executable
