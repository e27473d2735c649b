import NxObject.BitFields
import NxObject.Npdm

/-!
# Kernel capabilities read back

The descriptors of every capability share one 32-bit layout apart from the ones they begin with. Here they
are read back word by word, by the bit ranges that are documented for each kind.
-/
namespace NxObject.ProgramMeta
open BitFields

/-! ## The documented layout -/

/-- What one descriptor says, or the two of a mapping. -/
inductive Descriptor where
  | kernelFlags (highestThreadPriority lowestThreadPriority highestCpuId lowestCpuId : ℕ)
  | syscalls (index : ℕ) (offsets : List ℕ)
  | map (address size : ℕ) (isRo isIo : Bool)
  | mapPage (page : ℕ)
  | mapRegion (regions : List (ℕ × Bool))
  | irqPair (irq₀ irq₁ : ℕ)
  | applicationType (appType : ℕ)
  | minKernelVersion (minKernel : ℕ)
  | handleTableSize (size : ℕ)
  | debugFlags (allowDebug forceDebugProd forceDebug : Bool)
  deriving DecidableEq, Repr

/-- A region in seven bits: its type, and the read-only flag on top. -/
def regionAt (word hi lo : ℕ) : ℕ × Bool := (bits word (hi - 1) lo, word.testBit hi)

def maskIndex (word : ℕ) : ℕ := bits word 31 29

/-- The offsets of the calls that a mask allows, from the first of its group on. -/
def maskOffsets (word : ℕ) : List ℕ := (List.range 24).filter fun k => word.testBit (5 + k)

def decodeWord (word : ℕ) : Option Descriptor :=
  match trailingOnes 32 word with
  | 3 => some (.kernelFlags (bits word 15 10) (bits word 9 4) (bits word 31 24) (bits word 23 16))
  | 4 => some (.syscalls (maskIndex word) (maskOffsets word))
  | 7 => some (.mapPage (bits word 31 8))
  | 10 => some (.mapRegion [regionAt word 17 11, regionAt word 24 18, regionAt word 31 25])
  | 11 => some (.irqPair (bits word 21 12) (bits word 31 22))
  | 13 => some (.applicationType (bits word 16 14))
  | 14 => some (.minKernelVersion (bits word 31 15))
  | 15 => some (.handleTableSize (bits word 25 16))
  | 16 => some (.debugFlags (word.testBit 17) (word.testBit 18) (word.testBit 19))
  | _ => none

/-- A mapping. The bits of its descriptors above the mark of seven bits are `address[23:0]` below the
read-only flag, and `size[19:0]` below four more bits of the address below the inverted I/O flag. -/
def decodeMap (lower upper : ℕ) : Descriptor :=
  .map (bits lower 30 7 + 2 ^ 24 * bits upper 30 27) (bits upper 26 7) (lower.testBit 31) (!upper.testBit 31)

/-- The descriptors that a sequence of words holds; those of a mapping come in pairs. -/
def decode : List ℕ → Option (List Descriptor)
  | [] => some []
  | word :: words =>
    if trailingOnes 32 word = 6 then
      match words with
      | [] => none
      | upper :: words =>
        if trailingOnes 32 upper = 6 then (decode words).map (decodeMap word upper :: ·) else none
    else (decodeWord word).bind fun descriptor => (decode words).map (descriptor :: ·)

def blockWords : Bytes → List ℕ
  | b₀ :: b₁ :: b₂ :: b₃ :: rest => ofLe [b₀, b₁, b₂, b₃] :: blockWords rest
  | _ => []

/-! ## What a capability asks for -/

/-- The number of trailing ones of the capability's descriptors. -/
def KernelCapability.trailer : KernelCapability → ℕ
  | kernelFlags .. => 3
  | syscalls .. => 4
  | map .. => 6
  | mapPage .. => 7
  | mapRegion .. => 10
  | irqPair .. => 11
  | applicationType .. => 13
  | minKernelVersion .. => 14
  | handleTableSize .. => 15
  | debugFlags .. => 16

def KernelCapability.Fits : KernelCapability → Prop
  | kernelFlags highestThreadPriority lowestThreadPriority _ _ =>
    highestThreadPriority.toNat < 64 ∧ lowestThreadPriority.toNat < 64
  | syscalls _ => True
  | map address size _ _ => address.toNat < 2 ^ 28 ∧ size.toNat < 2 ^ 20
  | mapPage page => page.toNat < 2 ^ 24
  | mapRegion regions => regions.length ≤ 3 ∧ ∀ region ∈ regions, region.regionType.toNat < 64
  | irqPair irq₀ irq₁ => irq₀.toNat < 1024 ∧ irq₁.toNat < 1024
  | applicationType appType => appType.toNat < 8
  | minKernelVersion minKernel => minKernel.toNat < 2 ^ 17
  | handleTableSize size => size.toNat < 1024
  | debugFlags .. => True

def Allowed (calls : List (Text × UInt64)) (id : ℕ) : Prop := ∃ call ∈ calls, call.2.toNat = id

instance (calls : List (Text × UInt64)) (id : ℕ) : Decidable (Allowed calls id) :=
  inferInstanceAs (Decidable (∃ call ∈ calls, call.2.toNat = id))

/-- The groups of 24 system calls that are not empty, of the eight a mask can name. -/
def usedGroups (calls : List (Text × UInt64)) : List ℕ :=
  (List.range 8).filter fun index => ∃ call ∈ calls, call.2.toNat / 24 = index

/-- The calls of a group, counted from its first. -/
def groupOffsets (calls : List (Text × UInt64)) (index : ℕ) : List ℕ :=
  (List.range 24).filter fun k => Allowed calls (24 * index + k)

/-- The regions, up to three with ones of type 0 that are not read-only. -/
def padRegions (regions : List MapRegionDescriptor) : List MapRegionDescriptor :=
  regions ++ List.replicate (3 - regions.length) ⟨0, false⟩

def KernelCapability.descriptors : KernelCapability → List Descriptor
  | kernelFlags highestThreadPriority lowestThreadPriority highestCpuId lowestCpuId =>
    [.kernelFlags highestThreadPriority.toNat lowestThreadPriority.toNat highestCpuId.toNat
      lowestCpuId.toNat]
  | syscalls calls => (usedGroups calls).map fun index => .syscalls index (groupOffsets calls index)
  | map address size isRo isIo => [.map address.toNat size.toNat isRo isIo]
  | mapPage page => [.mapPage page.toNat]
  | mapRegion regions =>
    [.mapRegion ((padRegions regions).map fun region => (region.regionType.toNat, region.isRo))]
  | irqPair irq₀ irq₁ => [.irqPair irq₀.toNat irq₁.toNat]
  | applicationType appType => [.applicationType appType.toNat]
  | minKernelVersion minKernel => [.minKernelVersion minKernel.toNat]
  | handleTableSize size => [.handleTableSize size.toNat]
  | debugFlags allowDebug forceDebugProd forceDebug => [.debugFlags allowDebug forceDebugProd forceDebug]

/-- The words a descriptor is written as, by the layout that it is read by. -/
def Descriptor.words : Descriptor → List ℕ
  | kernelFlags highestThreadPriority lowestThreadPriority highestCpuId lowestCpuId =>
    [pack [(8, highestCpuId), (8, lowestCpuId), (6, highestThreadPriority), (6, lowestThreadPriority),
      (3 + 1, 2 ^ 3 - 1)]]
  | syscalls index offsets =>
    [setBits (pack [(3, index), (24, 0), (4 + 1, 2 ^ 4 - 1)]) (offsets.map (5 + ·))]
  | map address size isRo isIo =>
    [pack [(1, isRo.toNat), (24, address), (6 + 1, 2 ^ 6 - 1)],
      pack [(1, (!isIo).toNat), (4, address / 2 ^ 24), (20, size), (6 + 1, 2 ^ 6 - 1)]]
  | mapPage page => [pack [(24, page), (7 + 1, 2 ^ 7 - 1)]]
  | mapRegion regions =>
    [pack (regions.foldl (fun fields region => (1, region.2.toNat) :: (6, region.1) :: fields)
      [(10 + 1, 2 ^ 10 - 1)])]
  | irqPair irq₀ irq₁ => [pack [(10, irq₁), (10, irq₀), (11 + 1, 2 ^ 11 - 1)]]
  | applicationType appType => [pack [(3, appType), (13 + 1, 2 ^ 13 - 1)]]
  | minKernelVersion minKernel => [pack [(17, minKernel), (14 + 1, 2 ^ 14 - 1)]]
  | handleTableSize size => [pack [(10, size), (15 + 1, 2 ^ 15 - 1)]]
  | debugFlags allowDebug forceDebugProd forceDebug =>
    [pack [(1, forceDebug.toNat), (1, forceDebugProd.toNat), (1, allowDebug.toNat), (16 + 1, 2 ^ 16 - 1)]]

/-! ## The words of one descriptor -/

section Words
variable {acc value mask shift : UInt32} {fields : List (ℕ × ℕ)} {w : ℕ}

lemma packed_field (hacc : Packed acc fields) (hmask : mask.toNat = 2 ^ w - 1)
    (hshift : shift.toNat = width fields) (hfit : w + shift.toNat ≤ 32) :
    Packed (acc ||| field value mask shift) ((w, value.toNat) :: fields) :=
  hacc.or_shift (packed_mask value hmask) hshift (by rw [← hshift]; simpa [width] using hfit)

lemma packed_flag {set : Bool} (hacc : Packed acc fields) (hshift : shift.toNat = width fields)
    (hfit : 1 + shift.toNat ≤ 32) : Packed (acc ||| flag set shift) ((1, set.toNat) :: fields) := by
  have hset : Packed (if set then 1 else 0) [(1, set.toNat)] := by cases set <;> rfl
  have hflag : flag set shift = (if set then 1 else 0) <<< shift := by cases set <;> simp [flag]
  rw [hflag]
  exact hacc.or_shift hset hshift (by rw [← hshift]; simpa [width] using hfit)

lemma packed_low (hmask : mask.toNat = 2 ^ w - 1) : Packed (field value mask 0) [(w, value.toNat)] := by
  rw [field, UInt32.shiftLeft_zero]
  exact packed_mask value hmask

end Words

lemma decode_cons {word : ℕ} {descriptor : Descriptor} (hmark : trailingOnes 32 word ≠ 6)
    (hword : decodeWord word = some descriptor) (rest : List ℕ) :
    decode (word :: rest) = (decode rest).map (descriptor :: ·) := by
  cases rest <;> simp [decode, hmark, hword]

/-- The capability is encoded as this one word, which is read back as its one descriptor. -/
structure Single (cap : KernelCapability) (word : UInt32) (descriptor : Descriptor) : Prop where
  encode : cap.encode = [word]
  descriptors : cap.descriptors = [descriptor]
  mark : trailingOnes 32 word.toNat = cap.trailer
  notMap : cap.trailer ≠ 6
  decodes : decodeWord word.toNat = some descriptor
  written : descriptor.words = [word.toNat]

section Single
open KernelCapability

lemma trailer_lt (cap : KernelCapability) : cap.trailer < 32 := by cases cap <;> simp [trailer]

/-- A word whose lowest field is the mark of the capability is read by the layout that goes with the mark. -/
lemma exists_single {cap : KernelCapability} {descriptor : Descriptor} {fields : List (ℕ × ℕ)} (i : ℕ)
    (hencode : ∃ word, cap.encode = [word] ∧ Packed word fields)
    (hfield : fields[i]? = some (cap.trailer + 1, 2 ^ cap.trailer - 1))
    (hlast : width (fields.drop (i + 1)) = 0) (hnotMap : cap.trailer ≠ 6)
    (hdescriptors : cap.descriptors = [descriptor]) (hwritten : descriptor.words = [pack fields])
    (hdecodes : ∀ word, Packed word fields → trailingOnes 32 word.toNat = cap.trailer →
      decodeWord word.toNat = some descriptor) : ∃ word descriptor, Single cap word descriptor := by
  obtain ⟨word, hencode, hword⟩ := hencode
  have hmark : trailingOnes 32 word.toNat = cap.trailer := hword.mark i hfield hlast (trailer_lt cap)
  exact ⟨word, descriptor, hencode, hdescriptors, hmark, hnotMap, hdecodes word hword hmark, hword ▸ hwritten⟩

lemma single_kernelFlags (highestThreadPriority lowestThreadPriority highestCpuId lowestCpuId : UInt8)
    (hfits : (kernelFlags highestThreadPriority lowestThreadPriority highestCpuId lowestCpuId).Fits) :
    ∃ word descriptor, Single (kernelFlags highestThreadPriority lowestThreadPriority highestCpuId
      lowestCpuId) word descriptor := by
  obtain ⟨hhighest, hlowest⟩ := hfits
  have hword : ∃ word, (kernelFlags highestThreadPriority lowestThreadPriority highestCpuId
      lowestCpuId).encode = [word] ∧ Packed word [(8, highestCpuId.toNat), (8, lowestCpuId.toNat),
      (6, highestThreadPriority.toNat), (6, lowestThreadPriority.toNat), (3 + 1, 2 ^ 3 - 1)] :=
    ⟨_, rfl, packed_field (packed_field (packed_field (packed_field rfl rfl rfl (by decide)) rfl rfl (by decide))
      rfl rfl (by decide)) rfl rfl (by decide)⟩
  refine exists_single 4 hword rfl rfl (by simp [trailer]) rfl rfl fun word hword hmark => ?_
  have h₁ : bits word.toNat 15 10 = highestThreadPriority.toNat := hword.bits_eq 2 rfl rfl rfl hhighest
  have h₂ : bits word.toNat 9 4 = lowestThreadPriority.toNat := hword.bits_eq 3 rfl rfl rfl hlowest
  have h₃ : bits word.toNat 31 24 = highestCpuId.toNat := hword.bits_eq 0 rfl rfl rfl highestCpuId.toNat_lt
  have h₄ : bits word.toNat 23 16 = lowestCpuId.toNat := hword.bits_eq 1 rfl rfl rfl lowestCpuId.toNat_lt
  simp only [decodeWord, hmark, trailer, h₁, h₂, h₃, h₄]

lemma single_mapPage (page : UInt64) (hfits : (mapPage page).Fits) :
    ∃ word descriptor, Single (mapPage page) word descriptor := by
  have hlt : page.toNat < 2 ^ 24 := hfits
  have hcut : page.toUInt32.toNat = page.toNat := by rw [UInt64.toNat_toUInt32]; omega
  have hword : ∃ word, (mapPage page).encode = [word] ∧
      Packed word [(24, page.toNat), (7 + 1, 2 ^ 7 - 1)] :=
    ⟨_, rfl, hcut ▸ packed_field rfl rfl rfl (by decide)⟩
  refine exists_single 1 hword rfl rfl (by simp [trailer]) rfl rfl fun word hword hmark => ?_
  have hpage : bits word.toNat 31 8 = page.toNat := hword.bits_eq 0 rfl rfl rfl hlt
  simp only [decodeWord, hmark, trailer, hpage]

lemma single_irqPair (irq₀ irq₁ : UInt16) (hfits : (irqPair irq₀ irq₁).Fits) :
    ∃ word descriptor, Single (irqPair irq₀ irq₁) word descriptor := by
  obtain ⟨h₀, h₁⟩ := hfits
  have hword : ∃ word, (irqPair irq₀ irq₁).encode = [word] ∧
      Packed word [(10, irq₁.toNat), (10, irq₀.toNat), (11 + 1, 2 ^ 11 - 1)] :=
    ⟨_, rfl, packed_field (packed_field rfl rfl rfl (by decide)) rfl rfl (by decide)⟩
  refine exists_single 2 hword rfl rfl (by simp [trailer]) rfl rfl fun word hword hmark => ?_
  have hirq₀ : bits word.toNat 21 12 = irq₀.toNat := hword.bits_eq 1 rfl rfl rfl h₀
  have hirq₁ : bits word.toNat 31 22 = irq₁.toNat := hword.bits_eq 0 rfl rfl rfl h₁
  simp only [decodeWord, hmark, trailer, hirq₀, hirq₁]

lemma single_applicationType (appType : UInt16) (hfits : (applicationType appType).Fits) :
    ∃ word descriptor, Single (applicationType appType) word descriptor := by
  have hword : ∃ word, (applicationType appType).encode = [word] ∧
      Packed word [(3, appType.toNat), (13 + 1, 2 ^ 13 - 1)] :=
    ⟨_, rfl, packed_field rfl rfl rfl (by decide)⟩
  refine exists_single 1 hword rfl rfl (by simp [trailer]) rfl rfl fun word hword hmark => ?_
  have htype : bits word.toNat 16 14 = appType.toNat := hword.bits_eq 0 rfl rfl rfl hfits
  simp only [decodeWord, hmark, trailer, htype]

lemma single_minKernelVersion (minKernel : UInt64) (hfits : (minKernelVersion minKernel).Fits) :
    ∃ word descriptor, Single (minKernelVersion minKernel) word descriptor := by
  have hlt : minKernel.toNat < 2 ^ 17 := hfits
  have hcut : minKernel.toUInt32.toNat = minKernel.toNat := by rw [UInt64.toNat_toUInt32]; omega
  have hword : ∃ word, (minKernelVersion minKernel).encode = [word] ∧
      Packed word [(17, minKernel.toNat), (14 + 1, 2 ^ 14 - 1)] :=
    ⟨_, rfl, hcut ▸ packed_field rfl rfl rfl (by decide)⟩
  refine exists_single 1 hword rfl rfl (by simp [trailer]) rfl rfl fun word hword hmark => ?_
  have hversion : bits word.toNat 31 15 = minKernel.toNat := hword.bits_eq 0 rfl rfl rfl hlt
  simp only [decodeWord, hmark, trailer, hversion]

lemma single_handleTableSize (size : UInt16) (hfits : (handleTableSize size).Fits) :
    ∃ word descriptor, Single (handleTableSize size) word descriptor := by
  have hword : ∃ word, (handleTableSize size).encode = [word] ∧
      Packed word [(10, size.toNat), (15 + 1, 2 ^ 15 - 1)] :=
    ⟨_, rfl, packed_field rfl rfl rfl (by decide)⟩
  refine exists_single 1 hword rfl rfl (by simp [trailer]) rfl rfl fun word hword hmark => ?_
  have hsize : bits word.toNat 25 16 = size.toNat := hword.bits_eq 0 rfl rfl rfl hfits
  simp only [decodeWord, hmark, trailer, hsize]

lemma single_debugFlags (allowDebug forceDebugProd forceDebug : Bool) :
    ∃ word descriptor, Single (debugFlags allowDebug forceDebugProd forceDebug) word descriptor := by
  have hword : ∃ word, (debugFlags allowDebug forceDebugProd forceDebug).encode = [word] ∧
      Packed word [(1, forceDebug.toNat), (1, forceDebugProd.toNat), (1, allowDebug.toNat),
        (16 + 1, 2 ^ 16 - 1)] :=
    ⟨_, rfl, packed_flag (packed_flag (packed_flag rfl rfl (by decide)) rfl (by decide)) rfl (by decide)⟩
  refine exists_single 3 hword rfl rfl (by simp [trailer]) rfl rfl fun word hword hmark => ?_
  have h₁ : word.toNat.testBit 17 = allowDebug := hword.testBit_eq 2 rfl rfl
  have h₂ : word.toNat.testBit 18 = forceDebugProd := hword.testBit_eq 1 rfl rfl
  have h₃ : word.toNat.testBit 19 = forceDebug := hword.testBit_eq 0 rfl rfl
  simp only [decodeWord, hmark, trailer, h₁, h₂, h₃]

def pushRegion (fields : List (ℕ × ℕ)) (region : MapRegionDescriptor) : List (ℕ × ℕ) :=
  (1, region.isRo.toNat) :: (6, region.regionType.toNat) :: fields

lemma width_pushRegion (fields : List (ℕ × ℕ)) (region : MapRegionDescriptor) :
    width (pushRegion fields region) = width fields + 7 := by
  simp only [pushRegion, width, List.map_cons, List.sum_cons]
  omega

lemma packed_regions (regions : List MapRegionDescriptor) {i : ℕ} {word : UInt32} {fields : List (ℕ × ℕ)}
    (hword : Packed word fields) (hwidth : width fields = 11 + 7 * i) (hlen : i + regions.length ≤ 3) :
    Packed ((regions.zipIdx i).foldl
      (fun val (region, i) => val |||
        (field region.regionType.toUInt32 0x3F 0 ||| flag region.isRo 6) <<< UInt32.ofNat (11 + 7 * i)) word)
      (regions.foldl pushRegion fields) := by
  induction regions generalizing i word fields with
  | nil => exact hword
  | cons region regions ih =>
    rw [List.length_cons] at hlen
    have hshift : (UInt32.ofNat (11 + 7 * i)).toNat = width fields := by
      rw [UInt32.toNat_ofNat', hwidth]
      omega
    have hregion : Packed (field region.regionType.toUInt32 0x3F 0 ||| flag region.isRo 6)
        [(1, region.isRo.toNat), (6, region.regionType.toNat)] :=
      packed_flag (packed_low rfl) rfl (by decide)
    have hnext := hword.or_shift hregion hshift (by rw [hwidth]; change 7 + _ ≤ 32; omega)
    refine ih hnext ?_ (by omega)
    rw [width_pushRegion, hwidth]
    ring

/-- Regions of type 0 that are not read-only are what an unused part of the word holds anyway. -/
lemma packed_padding (n : ℕ) {word : UInt32} {fields : List (ℕ × ℕ)} (hword : Packed word fields) :
    Packed word ((List.replicate n (⟨0, false⟩ : MapRegionDescriptor)).foldl pushRegion fields) := by
  induction n generalizing fields with
  | zero => exact hword
  | succ n ih => exact ih ((hword.pad 6).pad 1)

lemma single_mapRegion (regions : List MapRegionDescriptor) (hfits : (mapRegion regions).Fits) :
    ∃ word descriptor, Single (mapRegion regions) word descriptor := by
  obtain ⟨hlen, htypes⟩ := hfits
  obtain ⟨word, hencode, hused⟩ : ∃ word, (mapRegion regions).encode = [word] ∧
      Packed word (regions.foldl pushRegion [(10 + 1, 2 ^ 10 - 1)]) := by
    refine ⟨_, rfl, ?_⟩
    rw [List.take_of_length_le hlen]
    exact packed_regions regions rfl rfl (by omega)
  -- Filled up to three regions, the word has the same fields whatever the list is.
  have hpadded : Packed word ((padRegions regions).foldl pushRegion [(10 + 1, 2 ^ 10 - 1)]) := by
    rw [padRegions, List.foldl_append]
    exact packed_padding _ hused
  have hthree : (padRegions regions).length = 3 := by
    rw [padRegions, List.length_append, List.length_replicate]
    omega
  have hpaddedTypes : ∀ region ∈ padRegions regions, region.regionType.toNat < 2 ^ 6 := by
    intro region hregion
    rcases List.mem_append.mp hregion with h | h
    · exact htypes region h
    · rw [List.eq_of_mem_replicate h]
      decide
  obtain ⟨r₀, r₁, r₂, hregions⟩ := List.length_eq_three.mp hthree
  rw [hregions] at hpadded hpaddedTypes
  have hdescriptors : (mapRegion regions).descriptors = [.mapRegion
      ([r₀, r₁, r₂].map fun region => (region.regionType.toNat, region.isRo))] := by
    rw [descriptors, hregions]
  have hword : Packed word [(1, r₂.isRo.toNat), (6, r₂.regionType.toNat), (1, r₁.isRo.toNat),
      (6, r₁.regionType.toNat), (1, r₀.isRo.toNat), (6, r₀.regionType.toNat), (10 + 1, 2 ^ 10 - 1)] := hpadded
  refine exists_single 6 ⟨word, hencode, hword⟩ rfl rfl (by simp [trailer]) hdescriptors rfl
    fun word hword hmark => ?_
  have h₀ : regionAt word.toNat 17 11 = (r₀.regionType.toNat, r₀.isRo) := Prod.ext
    (hword.bits_eq 5 rfl rfl rfl (hpaddedTypes r₀ (by simp))) (hword.testBit_eq 4 rfl rfl)
  have h₁ : regionAt word.toNat 24 18 = (r₁.regionType.toNat, r₁.isRo) := Prod.ext
    (hword.bits_eq 3 rfl rfl rfl (hpaddedTypes r₁ (by simp))) (hword.testBit_eq 2 rfl rfl)
  have h₂ : regionAt word.toNat 31 25 = (r₂.regionType.toNat, r₂.isRo) := Prod.ext
    (hword.bits_eq 1 rfl rfl rfl (hpaddedTypes r₂ (by simp))) (hword.testBit_eq 0 rfl rfl)
  simp only [decodeWord, hmark, trailer, h₀, h₁, h₂, List.map_cons, List.map_nil]

end Single

/-! ## The two words of a mapping -/

section Map
variable (address size : UInt64) (isRo isIo : Bool)

lemma packed_map : ∃ lower upper, (KernelCapability.map address size isRo isIo).encode = [lower, upper] ∧
    Packed lower [(1, isRo.toNat), (24, address.toUInt32.toNat), (6 + 1, 2 ^ 6 - 1)] ∧
    Packed upper [(1, (!isIo).toNat), (4, (address >>> 24).toUInt32.toNat), (20, size.toUInt32.toNat),
      (6 + 1, 2 ^ 6 - 1)] := by
  have hmark : Packed 0b111111 [(6 + 1, 2 ^ 6 - 1)] := rfl
  have haddress : Packed (field address.toUInt32 0x00FFFFFF 0) [(24, address.toUInt32.toNat)] := packed_low rfl
  have hsize : Packed (field size.toUInt32 0x000FFFFF 0) [(20, size.toUInt32.toNat)] := packed_low rfl
  refine ⟨_, _, rfl, ?_, ?_⟩
  · rw [UInt32.or_comm]
    exact hmark.or_shift (packed_flag haddress rfl (by decide)) rfl (Nat.le_refl 32)
  · rw [UInt32.or_comm]
    exact hmark.or_shift (packed_flag (packed_field hsize rfl rfl (by decide)) rfl (by decide)) rfl
      (Nat.le_refl 32)

/-- Whatever the address and the size are, their 28 and 20 low bits are what is stored. -/
lemma map_decodes : ∃ lower upper, (KernelCapability.map address size isRo isIo).encode = [lower, upper] ∧
    trailingOnes 32 lower.toNat = 6 ∧ trailingOnes 32 upper.toNat = 6 ∧ decodeMap lower.toNat upper.toNat =
      .map (address.toNat % 2 ^ 28) (size.toNat % 2 ^ 20) isRo isIo := by
  obtain ⟨lower, upper, hencode, hlower, hupper⟩ := packed_map address size isRo isIo
  refine ⟨lower, upper, hencode, hlower.mark 2 rfl rfl (by decide), hupper.mark 3 rfl rfl (by decide), ?_⟩
  have hlow : bits lower.toNat 30 7 = address.toUInt32.toNat % 2 ^ 24 := hlower.bits_mod 1 rfl rfl rfl
  have hhigh : bits upper.toNat 30 27 = (address >>> 24).toUInt32.toNat % 2 ^ 4 := hupper.bits_mod 1 rfl rfl rfl
  have hsize : bits upper.toNat 26 7 = size.toUInt32.toNat % 2 ^ 20 := hupper.bits_mod 2 rfl rfl rfl
  have hro : lower.toNat.testBit 31 = isRo := hlower.testBit_eq 0 rfl rfl
  have hio : upper.toNat.testBit 31 = !isIo := hupper.testBit_eq 0 rfl rfl
  have hshift : (address >>> 24).toNat = address.toNat / 2 ^ 24 := by
    rw [UInt64.toNat_shiftRight, Nat.shiftRight_eq_div_pow]
    rfl
  have haddress : address.toNat % 2 ^ 32 % 2 ^ 24 + 2 ^ 24 * (address.toNat / 2 ^ 24 % 2 ^ 32 % 2 ^ 4) =
      address.toNat % 2 ^ 28 := by omega
  have hcut : size.toNat % 2 ^ 32 % 2 ^ 20 = size.toNat % 2 ^ 20 := by omega
  rw [decodeMap, hlow, hhigh, hsize, hro, hio, UInt64.toNat_toUInt32, UInt64.toNat_toUInt32,
    UInt64.toNat_toUInt32, hshift, haddress, hcut, Bool.not_not]

lemma map_written (hfits : (KernelCapability.map address size isRo isIo).Fits) :
    (KernelCapability.map address size isRo isIo).encode.map UInt32.toNat =
      (Descriptor.map address.toNat size.toNat isRo isIo).words := by
  obtain ⟨lower, upper, hencode, hlower, hupper⟩ := packed_map address size isRo isIo
  obtain ⟨haddress, hsize⟩ := hfits
  have hcut : address.toUInt32.toNat = address.toNat := by rw [UInt64.toNat_toUInt32]; omega
  have hcut' : size.toUInt32.toNat = size.toNat := by rw [UInt64.toNat_toUInt32]; omega
  have hshift : (address >>> 24).toUInt32.toNat = address.toNat / 2 ^ 24 := by
    rw [UInt64.toNat_toUInt32, UInt64.toNat_shiftRight, Nat.shiftRight_eq_div_pow]
    change address.toNat / 2 ^ 24 % 2 ^ 32 = _
    omega
  rw [hcut] at hlower
  rw [hcut', hshift] at hupper
  rw [hencode, List.map_cons, List.map_singleton, hlower, hupper, Descriptor.words]

lemma decode_map (hfits : (KernelCapability.map address size isRo isIo).Fits) (rest : List ℕ) :
    decode ((KernelCapability.map address size isRo isIo).encode.map UInt32.toNat ++ rest) =
      (decode rest).map ((KernelCapability.map address size isRo isIo).descriptors ++ ·) := by
  obtain ⟨lower, upper, hencode, hlower, hupper, hread⟩ := map_decodes address size isRo isIo
  rw [Nat.mod_eq_of_lt hfits.1, Nat.mod_eq_of_lt hfits.2] at hread
  simp [hencode, decode, hlower, hupper, hread, KernelCapability.descriptors]

end Map

/-! ## The masks of the system calls -/

section Positions
variable {α : Type} (f : ℕ → α)

lemma modify_map_range (n i : ℕ) (g : α → α) :
    ((List.range n).map f).modify i g = (List.range n).map fun k => if k = i then g (f k) else f k := by
  refine List.ext_getElem (by simp) fun k hk hk' => ?_
  simp only [List.getElem_modify, List.getElem_map, List.getElem_range, eq_comm]

lemma set_map_range (n i : ℕ) (a : α) :
    ((List.range n).map f).set i a = (List.range n).map fun k => if k = i then a else f k := by
  refine List.ext_getElem (by simp) fun k hk hk' => ?_
  simp only [List.getElem_set, List.getElem_map, List.getElem_range, eq_comm]

lemma foldl_eraseIdx (keep : ℕ → Bool) (n : ℕ) (rest : List α) :
    (List.range n).reverse.foldl (fun l i => if keep i then l else l.eraseIdx i) ((List.range n).map f ++ rest) =
      ((List.range n).filter keep).map f ++ rest := by
  induction n generalizing rest with
  | zero => rfl
  | succ n ih =>
    have hlen : ((List.range n).map f).length ≤ n := by simp
    rw [List.range_succ, List.reverse_append, List.map_append, List.append_assoc, List.filter_append,
      List.map_append, List.append_assoc]
    cases hkeep : keep n with
    | true => simpa [hkeep] using ih (f n :: rest)
    | false => simpa [hkeep, List.eraseIdx_append_of_length_le hlen] using ih rest

end Positions

def emptyMask (index : ℕ) : UInt32 := 0b1111 ||| field (UInt32.ofNat index) 0x7 29

def addCall (index : ℕ) (mask : UInt32) (id : UInt64) : UInt32 :=
  if index = id.toNat / 24 then mask ||| flag true (UInt32.ofNat (id.toNat % 24 + 5)) else mask

lemma setSyscall_map_range (masks : ℕ → UInt32) (used : ℕ → Bool) (id : UInt64) :
    setSyscall ((List.range 8).map masks, (List.range 8).map used) id =
      ((List.range 8).map fun index => addCall index (masks index) id,
        (List.range 8).map fun index => decide (index = id.toNat / 24) || used index) := by
  have hbit : id.toNat % 24 + 5 < 32 := by omega
  simp only [setSyscall, hbit, and_true]
  split
  case isTrue h =>
    rw [modify_map_range, set_map_range]
    congr 1
    refine List.map_congr_left fun index _ => ?_
    by_cases heq : index = id.toNat / 24 <;> simp [heq]
  case isFalse h =>
    have hne : ∀ index ∈ List.range 8, index ≠ id.toNat / 24 := by
      intro index hindex heq
      exact h (heq ▸ List.mem_range.mp hindex)
    refine congrArg₂ Prod.mk (List.map_congr_left fun index hindex => ?_)
      (List.map_congr_left fun index hindex => ?_)
    · rw [addCall, if_neg (hne index hindex)]
    · simp [hne index hindex]

lemma foldl_setSyscall (ids : List UInt64) (masks : ℕ → UInt32) (used : ℕ → Bool) :
    ids.foldl setSyscall ((List.range 8).map masks, (List.range 8).map used) =
      ((List.range 8).map fun index => ids.foldl (addCall index) (masks index),
        (List.range 8).map fun index => used index || ids.any fun id => index = id.toNat / 24) := by
  induction ids generalizing masks used with
  | nil => simp
  | cons id ids ih =>
    rw [List.foldl_cons, setSyscall_map_range, ih]
    simp only [List.foldl_cons, List.any_cons, Bool.or_left_comm, Bool.or_assoc]

def groupMask (calls : List (Text × UInt64)) (index : ℕ) : UInt32 :=
  (calls.map Prod.snd).foldl (addCall index) (emptyMask index)

lemma encodeSyscalls_eq (calls : List (Text × UInt64)) :
    encodeSyscalls calls = (usedGroups calls).map (groupMask calls) := by
  have hfold := foldl_setSyscall (calls.map Prod.snd) emptyMask fun _ => false
  have hkept := foldl_eraseIdx (groupMask calls)
    (((List.range 8).map fun index => false || (calls.map Prod.snd).any fun id => index = id.toNat / 24).getD · false)
    8 []
  have hgroups : ∀ index ∈ List.range 8,
      ((List.range 8).map fun index => false || (calls.map Prod.snd).any fun id => index = id.toNat / 24).getD
        index false = decide (∃ call ∈ calls, call.2.toNat / 24 = index) := by
    intro index hindex
    have hlt : index < 8 := List.mem_range.mp hindex
    rw [List.getD_eq_getElem?_getD, List.getElem?_map, List.getElem?_range hlt, Option.map_some, Option.getD_some,
      Bool.false_or, List.any_map, Bool.eq_iff_iff, List.any_eq_true, decide_eq_true_eq]
    simp only [Function.comp_apply, decide_eq_true_eq, @eq_comm ℕ index]
  rw [List.filter_congr hgroups, List.append_nil, List.append_nil] at hkept
  exact (congrArg (fun s : List UInt32 × List Bool => (List.range 8).reverse.foldl
    (fun masks idx => if s.2.getD idx false then masks else masks.eraseIdx idx) s.1) hfold).trans hkept

lemma packed_emptyMask (index : ℕ) :
    Packed (emptyMask index) [(3, (UInt32.ofNat index).toNat), (24, 0), (4 + 1, 2 ^ 4 - 1)] :=
  have hmark : Packed 0b1111 [(24, 0), (4 + 1, 2 ^ 4 - 1)] := rfl
  packed_field hmark rfl rfl (by decide)

lemma testBit_addCall (index : ℕ) (mask : UInt32) (id : UInt64) (j : ℕ) :
    (addCall index mask id).toNat.testBit j = (mask.toNat.testBit j ||
      decide (index = id.toNat / 24 ∧ id.toNat % 24 + 5 = j)) := by
  have hbit : id.toNat % 24 + 5 < 32 := by omega
  have hflag : (flag true (UInt32.ofNat (id.toNat % 24 + 5))).toNat = 2 ^ (id.toNat % 24 + 5) := by
    have hshift : (UInt32.ofNat (id.toNat % 24 + 5)).toNat = id.toNat % 24 + 5 :=
      UInt32.toNat_ofNat_of_lt' (hbit.trans (by decide))
    rw [flag, if_pos rfl, UInt32.toNat_shiftLeft, hshift, Nat.mod_eq_of_lt hbit]
    exact (congrArg (· % 2 ^ 32) (Nat.one_shiftLeft _)).trans
      (Nat.mod_eq_of_lt (Nat.pow_lt_pow_right (by decide) hbit))
  rw [addCall]
  split
  case isTrue h => rw [UInt32.toNat_or, Nat.testBit_or, hflag, Nat.testBit_two_pow]; simp [h]
  case isFalse h => simp [h]

lemma testBit_groupMask (calls : List (Text × UInt64)) (index j : ℕ) :
    (groupMask calls index).toNat.testBit j = ((emptyMask index).toNat.testBit j ||
      decide (5 ≤ j ∧ j < 29 ∧ Allowed calls (24 * index + (j - 5)))) := by
  have hfold : ∀ (ids : List UInt64) (mask : UInt32), (ids.foldl (addCall index) mask).toNat.testBit j =
      (mask.toNat.testBit j || ids.any fun id => decide (index = id.toNat / 24 ∧ id.toNat % 24 + 5 = j)) := by
    intro ids
    induction ids with
    | nil => simp
    | cons id ids ih =>
      intro mask
      rw [List.foldl_cons, ih, testBit_addCall, List.any_cons, Bool.or_assoc]
  rw [groupMask, hfold, List.any_map, Bool.eq_iff_iff, Bool.or_eq_true, Bool.or_eq_true, List.any_eq_true,
    decide_eq_true_eq]
  simp only [Function.comp_apply, decide_eq_true_eq, Allowed]
  refine or_congr_right ⟨?_, ?_⟩
  · rintro ⟨call, hcall, hindex, hj⟩
    exact ⟨by omega, by omega, call, hcall, by omega⟩
  · rintro ⟨hlow, hhigh, call, hcall, hid⟩
    exact ⟨call, hcall, by omega, by omega⟩

/-- Outside of its 24 bits a mask stays as it was. -/
lemma bits_groupMask (calls : List (Text × UInt64)) (index hi lo : ℕ) (hout : hi < 5 ∨ 29 ≤ lo) :
    bits (groupMask calls index).toNat hi lo = bits (emptyMask index).toNat hi lo := by
  refine Nat.eq_of_testBit_eq fun i => ?_
  rw [testBit_bits, testBit_bits, testBit_groupMask]
  by_cases hi' : i < hi + 1 - lo
  · have hno : ¬(5 ≤ lo + i ∧ lo + i < 29 ∧ Allowed calls (24 * index + (lo + i - 5))) := by omega
    rw [decide_eq_false hno, Bool.or_false]
  · rw [decide_eq_false hi', Bool.false_and, Bool.false_and]

lemma mark_groupMask (calls : List (Text × UInt64)) (index : ℕ) :
    trailingOnes 32 (groupMask calls index).toNat = 4 := by
  refine trailingOnes_of_bits (by decide) ?_
  rw [bits_groupMask calls index 4 0 (by decide)]
  exact (packed_emptyMask index).bits_eq 2 rfl rfl rfl (by decide)

lemma maskIndex_groupMask (calls : List (Text × UInt64)) {index : ℕ} (hindex : index < 8) :
    maskIndex (groupMask calls index).toNat = index := by
  have hcut : (UInt32.ofNat index).toNat = index := UInt32.toNat_ofNat_of_lt' (hindex.trans (by decide))
  rw [maskIndex, bits_groupMask calls index 31 29 (by decide)]
  exact ((packed_emptyMask index).bits_eq 0 rfl rfl rfl (hcut.trans_lt hindex)).trans hcut

lemma testBit_groupMask_call (calls : List (Text × UInt64)) (index : ℕ) {k : ℕ} (hk : k < 24) :
    (groupMask calls index).toNat.testBit (5 + k) = decide (Allowed calls (24 * index + k)) := by
  have hzero : bits (emptyMask index).toNat 28 5 = 0 :=
    (packed_emptyMask index).bits_eq 1 rfl rfl rfl (by decide)
  have hempty : (emptyMask index).toNat.testBit (5 + k) = false := by
    have h := testBit_bits (emptyMask index).toNat 28 5 k
    rw [hzero, Nat.zero_testBit, decide_eq_true (show k < 28 + 1 - 5 by omega), Bool.true_and] at h
    exact h.symm
  have hin : 5 ≤ 5 + k ∧ 5 + k < 29 := by omega
  rw [testBit_groupMask, hempty, Bool.false_or, Nat.add_sub_cancel_left]
  simp only [hin, true_and]

lemma maskOffsets_groupMask (calls : List (Text × UInt64)) (index : ℕ) :
    maskOffsets (groupMask calls index).toNat = groupOffsets calls index :=
  List.filter_congr fun _ hk => testBit_groupMask_call calls index (List.mem_range.mp hk)

lemma groupMask_written (calls : List (Text × UInt64)) {index : ℕ} (hindex : index < 8) :
    (Descriptor.syscalls index (groupOffsets calls index)).words = [(groupMask calls index).toNat] := by
  have hcut : (UInt32.ofNat index).toNat = index := UInt32.toNat_ofNat_of_lt' (hindex.trans (by decide))
  have hempty : (emptyMask index).toNat = pack [(3, index), (24, 0), (4 + 1, 2 ^ 4 - 1)] := by
    rw [packed_emptyMask index, hcut]
  rw [Descriptor.words, List.singleton_inj]
  refine Nat.eq_of_testBit_eq fun j => ?_
  rw [testBit_setBits, testBit_groupMask, hempty]
  congr 2
  simp only [groupOffsets, List.mem_map, List.mem_filter, List.mem_range, decide_eq_true_eq, eq_iff_iff]
  constructor
  · rintro ⟨k, ⟨hk, hallowed⟩, rfl⟩
    exact ⟨by omega, by omega, by rwa [Nat.add_sub_cancel_left]⟩
  · rintro ⟨hlow, hhigh, hallowed⟩
    exact ⟨j - 5, ⟨by omega, hallowed⟩, by omega⟩

lemma usedGroups_lt {calls : List (Text × UInt64)} {index : ℕ} (h : index ∈ usedGroups calls) : index < 8 :=
  List.mem_range.mp (List.mem_of_mem_filter h)

lemma decode_groupMasks (calls : List (Text × UInt64)) (groups rest : List ℕ) (hlt : ∀ index ∈ groups, index < 8) :
    decode ((groups.map (groupMask calls)).map UInt32.toNat ++ rest) = (decode rest).map
      (groups.map (fun index => .syscalls index (groupOffsets calls index)) ++ ·) := by
  induction groups with
  | nil => simp
  | cons index groups ih =>
    have hword : decodeWord (groupMask calls index).toNat =
        some (.syscalls index (groupOffsets calls index)) := by
      simp only [decodeWord, mark_groupMask, maskIndex_groupMask calls (hlt index List.mem_cons_self),
        maskOffsets_groupMask]
    rw [List.map_cons, List.map_cons, List.cons_append,
      decode_cons (by rw [mark_groupMask]; decide) hword, ih fun i hi => hlt i (List.mem_cons_of_mem _ hi),
      Option.map_map]
    rfl

/-- The masks of the system calls: one for each group that is not empty, in the order of the groups, which
together allow exactly the given calls below 192. -/
structure CoversCalls (calls : List (Text × UInt64)) (masks : List UInt32) : Prop where
  ascending : (masks.map fun mask => maskIndex mask.toNat).Pairwise (· < ·)
  groups : ∀ index, index ∈ masks.map (fun mask => maskIndex mask.toNat) ↔
    index < 8 ∧ ∃ call ∈ calls, call.2.toNat / 24 = index
  union : ∀ id, (∃ mask ∈ masks, ∃ k < 24, mask.toNat.testBit (5 + k) = true ∧
    24 * maskIndex mask.toNat + k = id) ↔ id < 192 ∧ Allowed calls id

lemma encodeSyscalls_covers (calls : List (Text × UInt64)) : CoversCalls calls (encodeSyscalls calls) := by
  have hindices : (encodeSyscalls calls).map (fun mask => maskIndex mask.toNat) = usedGroups calls := by
    rw [encodeSyscalls_eq, List.map_map]
    exact (List.map_congr_left fun index h => maskIndex_groupMask calls (usedGroups_lt h)).trans (List.map_id _)
  refine ⟨?_, fun index => ?_, fun id => ⟨?_, ?_⟩⟩
  · rw [hindices]
    exact List.Pairwise.filter _ List.pairwise_lt_range
  · rw [hindices, usedGroups, List.mem_filter, List.mem_range, decide_eq_true_eq]
  · rintro ⟨mask, hmask, k, hk, hset, rfl⟩
    rw [encodeSyscalls_eq] at hmask
    obtain ⟨index, hindex, rfl⟩ := List.mem_map.mp hmask
    rw [testBit_groupMask_call calls index hk, decide_eq_true_eq] at hset
    have hlt := usedGroups_lt hindex
    rw [maskIndex_groupMask calls hlt]
    exact ⟨by omega, hset⟩
  · rintro ⟨hlt, call, hcall, rfl⟩
    have hgroup : call.2.toNat / 24 ∈ usedGroups calls :=
      List.mem_filter.mpr ⟨List.mem_range.mpr (by omega), decide_eq_true ⟨call, hcall, rfl⟩⟩
    have hoffset : call.2.toNat % 24 < 24 := Nat.mod_lt _ (by decide)
    refine ⟨groupMask calls (call.2.toNat / 24), ?_, call.2.toNat % 24, hoffset, ?_, ?_⟩
    · rw [encodeSyscalls_eq]
      exact List.mem_map_of_mem hgroup
    · rw [testBit_groupMask_call calls _ hoffset, decide_eq_true_eq, Nat.div_add_mod]
      exact ⟨call, hcall, rfl⟩
    · rw [maskIndex_groupMask calls (usedGroups_lt hgroup), Nat.div_add_mod]

/-! ## The whole block -/

open KernelCapability

def KernelCapability.wordCount : KernelCapability → ℕ
  | syscalls calls => (usedGroups calls).length
  | map .. => 2
  | _ => 1

/-- The words of a capability are marked with its kind, and what they are read back as is what it asks for. -/
structure ReadsBack (cap : KernelCapability) : Prop where
  length : cap.encode.length = cap.wordCount
  mark : ∀ word ∈ cap.encode, trailingOnes 32 word.toNat = cap.trailer
  decodes : ∀ rest, decode (cap.encode.map UInt32.toNat ++ rest) = (decode rest).map (cap.descriptors ++ ·)
  written : cap.encode.map UInt32.toNat = cap.descriptors.flatMap Descriptor.words

lemma Single.readsBack {cap : KernelCapability} {word : UInt32} {descriptor : Descriptor}
    (h : Single cap word descriptor) (hcount : cap.wordCount = 1) : ReadsBack cap where
  length := by rw [h.encode, hcount]; rfl
  mark := by
    rw [h.encode]
    exact List.forall_mem_singleton.mpr h.mark
  decodes := fun rest => by
    rw [h.encode, h.descriptors]
    exact decode_cons (h.mark.trans_ne h.notMap) h.decodes rest
  written := by rw [h.encode, h.descriptors, List.flatMap_singleton, h.written, List.map_singleton]

lemma readsBack {cap : KernelCapability} (hfits : cap.Fits) : ReadsBack cap := by
  cases cap with
  | kernelFlags highestThreadPriority lowestThreadPriority highestCpuId lowestCpuId =>
    obtain ⟨word, descriptor, h⟩ := single_kernelFlags _ _ _ _ hfits
    exact h.readsBack rfl
  | syscalls calls =>
    refine ⟨?_, fun word hword => ?_, fun rest => ?_, ?_⟩
    · rw [encode, encodeSyscalls_eq, List.length_map, wordCount]
    · rw [encode, encodeSyscalls_eq] at hword
      obtain ⟨index, -, rfl⟩ := List.mem_map.mp hword
      exact mark_groupMask calls index
    · rw [encode, encodeSyscalls_eq, descriptors]
      exact decode_groupMasks calls _ rest fun index => usedGroups_lt
    · rw [encode, encodeSyscalls_eq, descriptors, List.flatMap_map, List.map_map, List.map_eq_flatMap]
      exact List.flatMap_congr fun index h => (groupMask_written calls (usedGroups_lt h)).symm
  | map address size isRo isIo =>
    refine ⟨rfl, fun word hword => ?_, decode_map address size isRo isIo hfits,
      (map_written address size isRo isIo hfits).trans (List.flatMap_singleton _ _).symm⟩
    obtain ⟨lower, upper, hencode, hlower, hupper, -⟩ := map_decodes address size isRo isIo
    rw [hencode, List.mem_pair] at hword
    rcases hword with rfl | rfl
    exacts [hlower, hupper]
  | mapPage page =>
    obtain ⟨word, descriptor, h⟩ := single_mapPage page hfits
    exact h.readsBack rfl
  | mapRegion regions =>
    obtain ⟨word, descriptor, h⟩ := single_mapRegion regions hfits
    exact h.readsBack rfl
  | irqPair irq₀ irq₁ =>
    obtain ⟨word, descriptor, h⟩ := single_irqPair irq₀ irq₁ hfits
    exact h.readsBack rfl
  | applicationType appType =>
    obtain ⟨word, descriptor, h⟩ := single_applicationType appType hfits
    exact h.readsBack rfl
  | minKernelVersion minKernel =>
    obtain ⟨word, descriptor, h⟩ := single_minKernelVersion minKernel hfits
    exact h.readsBack rfl
  | handleTableSize size =>
    obtain ⟨word, descriptor, h⟩ := single_handleTableSize size hfits
    exact h.readsBack rfl
  | debugFlags allowDebug forceDebugProd forceDebug =>
    obtain ⟨word, descriptor, h⟩ := single_debugFlags allowDebug forceDebugProd forceDebug
    exact h.readsBack rfl

lemma decode_encode {capabilities : List KernelCapability} (hfits : ∀ cap ∈ capabilities, cap.Fits) :
    decode ((capabilities.flatMap encode).map UInt32.toNat) = some (capabilities.flatMap descriptors) := by
  induction capabilities with
  | nil => rfl
  | cons cap capabilities ih =>
    rw [List.flatMap_cons, List.map_append, (readsBack (hfits cap List.mem_cons_self)).decodes,
      ih fun c hc => hfits c (List.mem_cons_of_mem _ hc)]
    rfl

lemma encode_written {capabilities : List KernelCapability} (hfits : ∀ cap ∈ capabilities, cap.Fits) :
    (capabilities.flatMap encode).map UInt32.toNat = (capabilities.flatMap descriptors).flatMap Descriptor.words := by
  rw [List.map_flatMap, List.flatMap_assoc]
  exact List.flatMap_congr fun cap hcap => (readsBack (hfits cap hcap)).written

lemma blockWords_flatMap (words : List UInt32) :
    blockWords (words.flatMap fun desc => toLe 4 desc.toNat) = words.map UInt32.toNat := by
  induction words with
  | nil => rfl
  | cons word words ih =>
    have hword : ofLe (toLe 4 word.toNat) = word.toNat := ofLe_toLe_of_lt word.toNat_lt
    rw [List.flatMap_cons, List.map_cons, ← ih]
    exact congrArg (· :: _) hword

lemma blockWords_buildKernelCapabilities (capabilities : List KernelCapability) :
    blockWords (buildKernelCapabilities capabilities) = (capabilities.flatMap encode).map UInt32.toNat := by
  rw [buildKernelCapabilities, ← List.flatMap_assoc, blockWords_flatMap]

/-- A block of capabilities whose fields fit is read back word by word. -/
theorem buildKernelCapabilities_decodable (capabilities : List KernelCapability)
    (hfits : ∀ cap ∈ capabilities, cap.Fits) :
    blockWords (buildKernelCapabilities capabilities) = (capabilities.flatMap encode).map UInt32.toNat ∧
      decode (blockWords (buildKernelCapabilities capabilities)) = some (capabilities.flatMap descriptors) ∧
      (∀ cap ∈ capabilities, cap.encode.length = cap.wordCount ∧
        ∀ word ∈ cap.encode, trailingOnes 32 word.toNat = cap.trailer) ∧
      ∀ calls, syscalls calls ∈ capabilities → CoversCalls calls (syscalls calls).encode := by
  have hwords := blockWords_buildKernelCapabilities capabilities
  refine ⟨hwords, ?_, fun cap hcap => ?_, fun calls _ => encodeSyscalls_covers calls⟩
  · rw [hwords, decode_encode hfits]
  · have h := readsBack (hfits cap hcap)
    exact ⟨h.length, h.mark⟩

theorem buildKernelCapabilities_decodable_sample :
    decode (blockWords (buildKernelCapabilities [.kernelFlags 59 28 3 0,
      .syscalls [("exit".toList, 7), ("send".toList, 33)], .map 0xFFFF000 0x8000 true false,
      .mapRegion [⟨2, true⟩]])) =
    some [.kernelFlags 59 28 3 0, .syscalls 0 [7], .syscalls 1 [9], .map 0xFFFF000 0x8000 true false,
      .mapRegion [(2, true), (0, false), (0, false)]] :=
  (buildKernelCapabilities_decodable _ (by simp [Fits])).2.1

/-! ## Mappings told apart -/

section KeptApart
variable (address size address' size' : UInt64) (isRo isIo isRo' isIo' : Bool)

/-- The two mappings are the same, or differ in a flag, in `address[27:0]` or in `size[19:0]`. -/
def KeptApart : Prop :=
  (address = address' ∧ size = size' ∧ isRo = isRo' ∧ isIo = isIo') ∨
    address.toNat % 2 ^ 28 ≠ address'.toNat % 2 ^ 28 ∨ size.toNat % 2 ^ 20 ≠ size'.toNat % 2 ^ 20 ∨
      isRo ≠ isRo' ∨ isIo ≠ isIo'

lemma encode_map_eq_iff : (map address size isRo isIo).encode = (map address' size' isRo' isIo').encode ↔
    address.toNat % 2 ^ 28 = address'.toNat % 2 ^ 28 ∧ size.toNat % 2 ^ 20 = size'.toNat % 2 ^ 20 ∧
      isRo = isRo' ∧ isIo = isIo' := by
  constructor
  · intro heq
    obtain ⟨lower, upper, hencode, -, -, hread⟩ := map_decodes address size isRo isIo
    obtain ⟨lower', upper', hencode', -, -, hread'⟩ := map_decodes address' size' isRo' isIo'
    rw [hencode, hencode', List.cons.injEq, List.singleton_inj] at heq
    rw [heq.1, heq.2, hread', Descriptor.map.injEq] at hread
    obtain ⟨haddress, hsize, hro, hio⟩ := hread
    exact ⟨haddress.symm, hsize.symm, hro.symm, hio.symm⟩
  · rintro ⟨haddress, hsize, rfl, rfl⟩
    obtain ⟨lower, upper, hencode, hlower, hupper⟩ := packed_map address size isRo isIo
    obtain ⟨lower', upper', hencode', hlower', hupper'⟩ := packed_map address' size' isRo isIo
    have hshift : ∀ a : UInt64, (a >>> 24).toNat = a.toNat / 2 ^ 24 := fun a => by
      rw [UInt64.toNat_shiftRight, Nat.shiftRight_eq_div_pow]
      rfl
    have hlow : address.toNat % 2 ^ 32 % 2 ^ 24 = address'.toNat % 2 ^ 32 % 2 ^ 24 := by omega
    have hhigh : address.toNat / 2 ^ 24 % 2 ^ 32 % 2 ^ 4 = address'.toNat / 2 ^ 24 % 2 ^ 32 % 2 ^ 4 := by omega
    have hcut : size.toNat % 2 ^ 32 % 2 ^ 20 = size'.toNat % 2 ^ 32 % 2 ^ 20 := by omega
    have h₁ : lower = lower' := hlower.ext hlower' (by
      simp only [pack, width, List.map_cons, UInt64.toNat_toUInt32, hlow])
    have h₂ : upper = upper' := hupper.ext hupper' (by
      simp only [pack, width, List.map_cons, UInt64.toNat_toUInt32, hshift, hhigh, hcut])
    rw [hencode, hencode', h₁, h₂]

/-- The descriptors tell two mappings apart, except for those that differ in the higher bits of the address
or of the size alone. -/
theorem map_lossless_iff :
    ((map address size isRo isIo).encode = (map address' size' isRo' isIo').encode →
      address = address' ∧ size = size' ∧ isRo = isRo' ∧ isIo = isIo') ↔
    KeptApart address size address' size' isRo isIo isRo' isIo' := by
  rw [encode_map_eq_iff, KeptApart]
  tauto

end KeptApart

/-- The mapping of the page at 256 MiB is encoded as that of the page at address 0. -/
theorem map_aliases :
    (4096 ∣ (0x10000000 : UInt64).toNat ∧ (0x10000000 : UInt64).toNat < 2 ^ 40) ∧
      (4096 ∣ (0x1000 : UInt64).toNat ∧ (0x1000 : UInt64).toNat < 2 ^ 32) ∧
      (map 0x10000000 0x1000 false false).encode = (map 0 0x1000 false false).encode ∧
      (0x10000000 : UInt64) ≠ 0 := by
  decide

end NxObject.ProgramMeta
