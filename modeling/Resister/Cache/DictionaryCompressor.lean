import Mathlib
import Resister.Base.Bitfield
import Resister.Base.Logging

/-!
# Dictionary compressors

`DictionaryCompressor<uint32_t>`: a line is compressed word by word, each word against the entries
of a dictionary that both sides fill as they go.
-/

namespace Resister.Cache.DictionaryCompressor

open Resister.Base List BitVec

abbrev Word := BitVec 32

/-! ## Patterns -/

inductive Content where
  /-- `UncompressedPattern` -/
  | uncompressed (data : Word)
  /-- `MaskedPattern` and `LocatedMaskedPattern` -/
  | masked (mask bits : Word)
  /-- `MaskedValuePattern` -/
  | maskedValue (value mask bits : Word)
  /-- `RepeatedValuePattern<uint8_t>` -/
  | repeatedValue (value : BitVec 8)
  /-- `SignExtendedPattern<N>` -/
  | signExtended (n : BitVec 32) (bits : Word)
  /-- `FPC::SignExtendedTwoHalfwords` -/
  | twoHalfwords (low high : BitVec 8)
  deriving DecidableEq, Repr

structure ZeroRun where
  runLength : Nat
  realSize : Nat
  deriving DecidableEq, Repr

structure Pattern (Number : Type) where
  patternNumber : Number
  code : Nat
  length : Nat
  numUnmatchedBits : Nat
  matchLocation : Int
  allocate : Bool
  content : Content
  zeroRun : Option ZeroRun := none
  deriving DecidableEq, Repr

def halfword (byte : BitVec 8) : BitVec 16 := (szext 8 (byte.signExtend 64)).setWidth 16

def repeatByte (value : BitVec 8) : Word :=
  (List.range 4).foldl (fun word _ => (word <<< 8) ||| value.setWidth 32) 0

def Content.decompress : Content → Word → Word
  | uncompressed data, _ => data
  | masked mask bits, dictBytes => bits ||| (dictBytes &&& mask)
  | maskedValue value mask bits, _ => bits ||| (value &&& mask)
  | repeatedValue value, _ => repeatByte value
  | signExtended n bits, _ => (sext n (bits.setWidth 64)).setWidth 32
  | twoHalfwords low high, _ =>
    ((halfword high).setWidth 32 <<< 16) ||| (halfword low).setWidth 32

namespace Pattern

variable {Number : Type}

def getSizeBits (pattern : Pattern Number) : Nat :=
  match pattern.zeroRun with
  | some run => run.realSize
  | none => pattern.numUnmatchedBits + pattern.length

def getMatchLocation (pattern : Pattern Number) : BitVec 8 := BitVec.ofInt 8 pattern.matchLocation

def decompress (pattern : Pattern Number) : Word → Word := pattern.content.decompress

end Pattern

/-! ## Pattern classes -/

structure PatternClass (Number : Type) where
  isPattern : Word → Word → Int → Bool
  make : Word → Int → Pattern Number

namespace PatternClass

variable {Number : Type} (number : Number) (code length : Nat)

def maskedMatch (mask bytes dictBytes : Word) (matchLocation : Int) : Bool :=
  decide (0 ≤ matchLocation) && (bytes &&& mask == dictBytes &&& mask)

def unmatched (mask : Word) : Nat := popCount ((~~~mask).setWidth 64)

def uncompressed (place : Int → Int) : PatternClass Number where
  isPattern _ _ _ := true
  make bytes matchLocation :=
    { patternNumber := number, code, length, numUnmatchedBits := 32,
      matchLocation := place matchLocation, allocate := true, content := .uncompressed bytes }

def masked (mask : Word) (allocate : Bool) : PatternClass Number where
  isPattern := maskedMatch mask
  make bytes matchLocation :=
    { patternNumber := number, code, length, numUnmatchedBits := unmatched mask,
      matchLocation, allocate, content := .masked mask (bytes &&& ~~~mask) }

def locatedMasked (mask : Word) (location : Int) (allocate : Bool) : PatternClass Number :=
  { masked number code length mask allocate with
    isPattern := fun bytes dictBytes matchLocation =>
      decide (matchLocation = location) && maskedMatch mask bytes dictBytes matchLocation }

def maskedValue (value mask : Word) (place : Int → Int) (allocate : Bool) : PatternClass Number where
  isPattern bytes _ _ := value &&& mask == bytes &&& mask
  make bytes matchLocation :=
    { patternNumber := number, code, length, numUnmatchedBits := unmatched mask,
      matchLocation := place matchLocation, allocate,
      content := .maskedValue value mask (bytes &&& ~~~mask) }

def repeatedValue (place : Int → Int) (allocate : Bool) : PatternClass Number where
  isPattern bytes _ _ := (List.range 4).all fun i => (bytes >>> (8 * i)).setWidth 8 == bytes.setWidth 8
  make bytes matchLocation :=
    { patternNumber := number, code, length, numUnmatchedBits := 8,
      matchLocation := place matchLocation, allocate, content := .repeatedValue (bytes.setWidth 8) }

def signExtended (n : BitVec 32) (allocate : Bool) : PatternClass Number where
  isPattern bytes _ _ := bytes == (szext n (bytes.setWidth 64)).setWidth 32
  make bytes _ :=
    { patternNumber := number, code, length, numUnmatchedBits := n.toNat,
      matchLocation := -1, allocate,
      content := .signExtended n ((bytes.setWidth 64 &&& mask n).setWidth 32) }

def halfwordMatch (half : BitVec 16) : Bool :=
  half.toInt == (((szext 8 (half.signExtend 64)).setWidth 16).toNat : Int)

def signExtendedTwoHalfwords : PatternClass Number where
  isPattern bytes _ _ := halfwordMatch (bytes.setWidth 16) && halfwordMatch ((bytes >>> 16).setWidth 16)
  make bytes _ :=
    { patternNumber := number, code, length, numUnmatchedBits := 16, matchLocation := -1,
      allocate := false,
      content := .twoHalfwords (bytes.setWidth 8) ((bytes >>> 16).setWidth 8) }

end PatternClass

/-! ## The dictionary -/

/-- The vector of entries, of which the first `numEntries` are valid. -/
structure Dictionary where
  entries : List Word
  numEntries : Nat
  fits : numEntries ≤ entries.length

namespace Dictionary

def reset (dictionarySize : Nat) : Dictionary where
  entries := List.replicate dictionarySize 0
  numEntries := 0
  fits := Nat.zero_le _

/-- `dictionary[numEntries++] = data` -/
def push (d : Dictionary) (data : Word) (room : d.numEntries < d.entries.length) : Dictionary where
  entries := d.entries.set d.numEntries data
  numEntries := d.numEntries + 1
  fits := by
    rw [List.length_set]
    exact room

end Dictionary

/-! ## Compression -/

structure CompData (Number : Type) where
  entries : List (Pattern Number)
  sizeBits : Nat
  deriving DecidableEq, Repr

/-- The parts in which the compressors differ. `added` is what `addEntry` makes of a pattern that
comes behind the entries it has. -/
structure Compressor (Number : Type) where
  dictionarySize : Nat
  patterns : List (PatternClass Number)
  noMatch : PatternClass Number
  addToDictionary : Dictionary → Word → Except Fault Dictionary
  added : List (Pattern Number) → Pattern Number → Pattern Number

namespace Compressor

variable {Number : Type} (c : Compressor Number)

def getPattern (bytes dictBytes : Word) (matchLocation : Int) : Pattern Number :=
  ((c.patterns.find? fun k => k.isPattern bytes dictBytes matchLocation).getD c.noMatch).make
    bytes matchLocation

def better (data : Word) (pattern : Pattern Number) (slot : Word × Nat) : Pattern Number :=
  let temp := c.getPattern data slot.1 slot.2
  if temp.getSizeBits < pattern.getSizeBits then temp else pattern

def bestPattern (d : Dictionary) (data : Word) : Pattern Number :=
  ((d.entries.take d.numEntries).zipIdx).foldl (c.better data) (c.getPattern data 0 (-1))

def allocate (d : Dictionary) (pattern : Pattern Number) (data : Word) : Except Fault Dictionary :=
  if pattern.allocate then c.addToDictionary d data else .ok d

def compressValue (d : Dictionary) (data : Word) : Except Fault (Pattern Number × Dictionary) := do
  let pattern := c.bestPattern d data
  let d ← c.allocate d pattern data
  .ok (pattern, d)

def addEntry (compData : CompData Number) (pattern : Pattern Number) : CompData Number :=
  let entry := c.added compData.entries pattern
  { entries := compData.entries ++ [entry], sizeBits := compData.sizeBits + entry.getSizeBits }

def compressValues (d : Dictionary) (compData : CompData Number) :
    List Word → Except Fault (CompData Number)
  | [] => .ok compData
  | value :: rest => do
    let (pattern, d) ← c.compressValue d value
    compressValues d (c.addEntry compData pattern) rest

def toChunks (line : List (BitVec 64)) : List Word :=
  line.flatMap fun data : BitVec 64 => [data.setWidth 32, (data >>> 32).setWidth 32]

def compress (line : List (BitVec 64)) : Except Fault (CompData Number) :=
  c.compressValues (Dictionary.reset c.dictionarySize) { entries := [], sizeBits := 0 } (toChunks line)

/-! ## Decompression -/

/-- Every pattern reads the dictionary at its match location, also those that have none: theirs is
−1, which is read at 255. `beyond` is what the memory past the end of the vector holds. -/
def decompressValue (beyond : Nat → Word) (d : Dictionary) (pattern : Pattern Number) :
    Except Fault (Word × Dictionary) := do
  let location := pattern.getMatchLocation.toNat
  let data := pattern.decompress (d.entries.getD location (beyond location))
  let d ← c.allocate d pattern data
  .ok (data, d)

def decompressValues (beyond : Nat → Word) (d : Dictionary) :
    List (Pattern Number) → Except Fault (List Word)
  | [] => .ok []
  | pattern :: rest => do
    let (value, d) ← c.decompressValue beyond d pattern
    let values ← decompressValues beyond d rest
    .ok (value :: values)

def concatenate : List Word → List (BitVec 64)
  | low :: high :: rest => ((high.setWidth 64 <<< 32) ||| low.setWidth 64) :: concatenate rest
  | _ => []

def decompress (beyond : Nat → Word) (compData : CompData Number) : Except Fault (List (BitVec 64)) := do
  let values ← c.decompressValues beyond (Dictionary.reset c.dictionarySize) compData.entries
  .ok (concatenate values)

end Compressor

/-! ## A pattern keeps its word -/

/-- The pattern gives the word back, whatever is read from the dictionary if it has no location, and
from the entry it was matched with otherwise. -/
structure Keeps {Number : Type} (pattern : Pattern Number) (bytes dictBytes : Word) (location : Int) :
    Prop where
  location : pattern.matchLocation = location ∨ pattern.matchLocation = -1
  back : ∀ read, (0 ≤ pattern.matchLocation → read = dictBytes) → pattern.decompress read = bytes

def PatternClass.Faithful {Number : Type} (k : PatternClass Number) : Prop :=
  ∀ bytes dictBytes location, k.isPattern bytes dictBytes location = true →
    Keeps (k.make bytes location) bytes dictBytes location

section Words

theorem unmasked_or_masked {bytes other mask : Word} (same : bytes &&& mask = other &&& mask) :
    bytes &&& ~~~mask ||| (other &&& mask) = bytes := by
  rw [← same]
  apply eq_of_getLsbD_eq
  intro k inside
  simp only [getLsbD_or, getLsbD_and, getLsbD_not, inside, decide_true]
  cases mask.getLsbD k with
  | true => simp
  | false => simp

theorem repeatByte_eq {bytes : Word} (same : ∀ i < 4, (bytes >>> (8 * i)).setWidth 8 = bytes.setWidth 8) :
    repeatByte (bytes.setWidth 8) = bytes := by
  apply eq_of_getLsbD_eq
  intro k inside
  have byte := congrArg (fun b : BitVec 8 => b.getLsbD (k % 8)) (same (k / 8) (by omega))
  have whole : 8 * (k / 8) + k % 8 = k := by omega
  have low : k % 8 < 8 := by omega
  simp only [getLsbD_setWidth, getLsbD_ushiftRight, whole, low, decide_true,
    Bool.true_and] at byte
  rw [byte]
  interval_cases k
  all_goals simp [repeatByte, range_succ]

theorem sext_low {n : BitVec 32} (positive : 0 < n.toNat) (narrow : n.toNat ≤ 32) (bytes : Word) :
    sext n (((bytes.setWidth 64 &&& mask n).setWidth 32).setWidth 64) = szext n (bytes.setWidth 64) := by
  rw [sext_eq_szext]
  · apply szext_congr positive
    intro k low
    have inside : k < 32 := by omega
    simp [low, inside, show k < 64 by omega]
  · apply eq_of_getLsbD_eq
    intro k inside
    by_cases low : k < n.toNat
    · simp [low, inside]
    · simp [low, inside]

theorem halfword_low {half : BitVec 16} (fits : PatternClass.halfwordMatch half = true) :
    halfword (half.setWidth 8) = half := by
  have same : (szext 8 (half.signExtend 64)).setWidth 16 = half := by
    apply eq_of_toInt_eq
    have value := beq_iff_eq.mp fits
    have small := half.toInt_lt
    rw [value, toInt_eq_toNat_of_lt]
    have bound := value ▸ small
    norm_num at bound ⊢
    omega
  rw [halfword]
  rw [show szext 8 ((half.setWidth 8).signExtend 64) = szext 8 (half.signExtend 64) from ?_]
  · exact same
  · apply szext_congr (by decide)
    intro k low
    have small : k < 8 := low
    rw [getLsbD_signExtend, getLsbD_signExtend, if_pos small, if_pos (by omega)]
    simp [small]

end Words

namespace PatternClass

variable {Number : Type} {number : Number} {code length : Nat} {place : Int → Int} {allocate : Bool}

/-- The place of a pattern that does not use the dictionary: the one it was tried at, or none. -/
def Placed (place : Int → Int) : Prop := ∀ location, place location = location ∨ place location = -1

theorem uncompressed_faithful (placed : Placed place) :
    (uncompressed number code length place).Faithful :=
  fun _ _ location _ => { location := placed location, back := fun _ _ => rfl }

theorem masked_faithful (mask : Word) : (masked number code length mask allocate).Faithful := by
  intro bytes dictBytes location matched
  obtain ⟨found, same⟩ := Bool.and_eq_true_iff.mp matched
  refine { location := .inl rfl, back := ?_ }
  intro read entry
  rw [entry (of_decide_eq_true found)]
  exact unmasked_or_masked (beq_iff_eq.mp same)

theorem locatedMasked_faithful (mask : Word) (located : Int) :
    (locatedMasked number code length mask located allocate).Faithful := by
  intro bytes dictBytes location matched
  exact masked_faithful mask bytes dictBytes location (Bool.and_eq_true_iff.mp matched).2

theorem maskedValue_faithful (value mask : Word) (placed : Placed place) :
    (maskedValue number code length value mask place allocate).Faithful := by
  intro bytes dictBytes location matched
  refine { location := placed location, back := ?_ }
  intro read entry
  exact unmasked_or_masked (beq_iff_eq.mp matched).symm

theorem repeatedValue_faithful (placed : Placed place) :
    (repeatedValue number code length place allocate).Faithful := by
  intro bytes dictBytes location matched
  refine { location := placed location, back := ?_ }
  intro read entry
  apply repeatByte_eq
  intro i small
  have each := all_eq_true.mp matched i (mem_range.mpr small)
  exact beq_iff_eq.mp each

theorem signExtended_faithful {n : BitVec 32} (positive : 0 < n.toNat) (narrow : n.toNat ≤ 32) :
    (signExtended number code length n allocate).Faithful := by
  intro bytes dictBytes location matched
  refine { location := .inr rfl, back := ?_ }
  intro read entry
  show (sext n _).setWidth 32 = bytes
  rw [sext_low positive narrow]
  exact (beq_iff_eq.mp matched).symm

theorem signExtendedTwoHalfwords_faithful :
    (signExtendedTwoHalfwords number code length).Faithful := by
  intro bytes dictBytes location matched
  obtain ⟨low, high⟩ := Bool.and_eq_true_iff.mp matched
  refine { location := .inr rfl, back := ?_ }
  intro read entry
  have lower := halfword_low low
  have upper := halfword_low high
  rw [setWidth_setWidth_of_le _ (by decide)] at lower upper
  show (halfword _).setWidth 32 <<< 16 ||| (halfword _).setWidth 32 = bytes
  rw [lower, upper]
  apply eq_of_getLsbD_eq
  intro k inside
  by_cases half : k < 16
  · simp [inside, half]
  · simp [inside, half, show k - 16 < 16 by omega, show 16 + (k - 16) = k by omega]

end PatternClass

/-! ## Both sides keep the same dictionary -/

structure Compressor.Sound {Number : Type} (c : Compressor Number) : Prop where
  patterns : ∀ k ∈ c.patterns, k.Faithful
  noMatch : c.noMatch.Faithful
  always : ∀ bytes dictBytes location, c.noMatch.isPattern bytes dictBytes location = true
  grows : ∀ d data d', c.addToDictionary d data = .ok d' → d'.numEntries ≤ d.numEntries + 1
  added : ∀ entries pattern, ∃ run, c.added entries pattern = { pattern with zeroRun := run }

namespace Compressor

variable {Number : Type} {c : Compressor Number}

theorem getPattern_keeps (sound : c.Sound) (bytes dictBytes : Word) (location : Int) :
    Keeps (c.getPattern bytes dictBytes location) bytes dictBytes location := by
  unfold getPattern
  cases found : c.patterns.find? fun k => k.isPattern bytes dictBytes location with
  | none => exact sound.noMatch _ _ _ (sound.always _ _ _)
  | some k =>
    have matched : k.isPattern bytes dictBytes location = true := by
      simpa using List.find?_some found
    exact sound.patterns k (mem_of_find?_eq_some found) _ _ _ matched

def Recovers (d : Dictionary) (pattern : Pattern Number) (bytes : Word) : Prop :=
  ∃ (dictBytes : Word) (location : Int), Keeps pattern bytes dictBytes location ∧
    (location = -1 ∨ ∃ i : Nat, location = i ∧ i < d.numEntries ∧ d.entries[i]? = some dictBytes)

theorem bestPattern_recovers (sound : c.Sound) (d : Dictionary) (data : Word) :
    Recovers d (c.bestPattern d data) data := by
  apply List.foldlRecOn (motive := fun pattern => Recovers d pattern data)
  · exact ⟨0, -1, getPattern_keeps sound _ _ _, .inl rfl⟩
  · intro pattern recovers slot mem
    unfold better
    dsimp only
    split
    next =>
      obtain ⟨entry, i⟩ := slot
      have found := mem_zipIdx_iff_getElem?.mp mem
      rw [List.getElem?_take] at found
      split at found
      next valid =>
        exact ⟨entry, i, getPattern_keeps sound _ _ _, .inr ⟨i, rfl, valid, found⟩⟩
      next => cases found
    next => exact recovers

theorem decompress_recovers {d : Dictionary} {pattern : Pattern Number} {bytes : Word}
    (recovers : Recovers d pattern bytes) (small : d.numEntries ≤ 255) (beyond : Nat → Word) :
    pattern.decompress (d.entries.getD pattern.getMatchLocation.toNat
      (beyond pattern.getMatchLocation.toNat)) = bytes := by
  obtain ⟨dictBytes, location, keeps, place⟩ := recovers
  apply keeps.back
  intro valid
  have there : pattern.matchLocation = location := by
    cases keeps.location with
    | inl same => exact same
    | inr none => omega
  obtain none | ⟨i, rfl, below, entry⟩ := place
  · omega
  · have byte : pattern.getMatchLocation.toNat = i := by
      rw [Pattern.getMatchLocation, there, ofInt_natCast, toNat_ofNat]
      exact Nat.mod_eq_of_lt (by omega)
    rw [byte, getD_eq_getElem?_getD, entry]
    rfl

theorem allocate_grows (sound : c.Sound) {d d' : Dictionary} {pattern : Pattern Number} {data : Word}
    (run : c.allocate d pattern data = .ok d') : d'.numEntries ≤ d.numEntries + 1 := by
  unfold allocate at run
  split at run
  · exact sound.grows _ _ _ run
  · cases run
    omega

theorem decompressValue_zeroRun (beyond : Nat → Word) (d : Dictionary) (pattern : Pattern Number)
    (run : Option ZeroRun) :
    c.decompressValue beyond d { pattern with zeroRun := run } = c.decompressValue beyond d pattern :=
  rfl

theorem decompressValue_compressValue (sound : c.Sound) {d d' : Dictionary} {data : Word}
    {pattern : Pattern Number} (run : c.compressValue d data = .ok (pattern, d'))
    (small : d.numEntries ≤ 255) (beyond : Nat → Word) (entries : List (Pattern Number)) :
    c.decompressValue beyond d (c.added entries pattern) = .ok (data, d') ∧
      d'.numEntries ≤ d.numEntries + 1 := by
  obtain ⟨after, allocated, result⟩ := andThen_ok.mp run
  cases result
  refine ⟨?_, allocate_grows sound allocated⟩
  obtain ⟨zeroRun, same⟩ := sound.added entries (c.bestPattern d data)
  rw [same, decompressValue_zeroRun]
  unfold decompressValue
  dsimp only
  rw [decompress_recovers (bestPattern_recovers sound d data) small beyond, allocated]
  rfl

theorem decompressValues_compressValues (sound : c.Sound) (beyond : Nat → Word) :
    ∀ (words : List Word) (d : Dictionary) (compData result : CompData Number),
      c.compressValues d compData words = .ok result → d.numEntries + words.length ≤ 256 →
      ∃ new, result.entries = compData.entries ++ new ∧ c.decompressValues beyond d new = .ok words := by
  intro words
  induction words with
  | nil =>
    intro d compData result run small
    cases run
    exact ⟨[], by simp, rfl⟩
  | cons word rest ih =>
    intro d compData result run small
    obtain ⟨⟨pattern, d'⟩, value, more⟩ := andThen_ok.mp run
    rw [length_cons] at small
    obtain ⟨back, grown⟩ := decompressValue_compressValue sound value (by omega) beyond compData.entries
    obtain ⟨new, entries, values⟩ := ih d' _ _ more (by omega)
    refine ⟨c.added compData.entries pattern :: new, ?_, ?_⟩
    · rw [entries]
      simp [addEntry]
    · rw [decompressValues, back, ok_andThen]
      dsimp only
      rw [values]
      rfl

theorem concatenate_toChunks (line : List (BitVec 64)) : concatenate (toChunks line) = line := by
  induction line with
  | nil => rfl
  | cons data rest ih =>
    show _ :: concatenate (toChunks rest) = data :: rest
    rw [ih]
    congr 1
    apply eq_of_getLsbD_eq
    intro k inside
    by_cases half : k < 32
    · simp [inside, half]
    · simp [inside, half, show k - 32 < 32 by omega, show 32 + (k - 32) = k by omega]

def Lossless (c : Compressor Number) (line : List (BitVec 64)) : Prop :=
  ∀ (beyond : Nat → Word) compData, c.compress line = .ok compData →
    c.decompress beyond compData = .ok line

theorem Sound.lossless (sound : c.Sound) {line : List (BitVec 64)}
    (short : (toChunks line).length < 256) : c.Lossless line := by
  intro beyond compData run
  have start : (Dictionary.reset c.dictionarySize).numEntries = 0 := rfl
  obtain ⟨new, entries, values⟩ :=
    decompressValues_compressValues sound beyond _ _ _ _ run (by omega)
  rw [nil_append] at entries
  rw [decompress, entries, values, ok_andThen, concatenate_toChunks]

theorem compressValues_succeeds (Room : Dictionary → Nat → Prop)
    (takes : ∀ d n data, Room d (n + 1) → ∃ d', c.addToDictionary d data = .ok d' ∧ Room d' n)
    (fewer : ∀ d n, Room d (n + 1) → Room d n) :
    ∀ (words : List Word) (d : Dictionary) (compData : CompData Number), Room d words.length →
      ∃ result, c.compressValues d compData words = .ok result := by
  intro words
  induction words with
  | nil => exact fun d compData _ => ⟨compData, rfl⟩
  | cons word rest ih =>
    intro d compData room
    rw [length_cons] at room
    have stored : ∃ d', c.allocate d (c.bestPattern d word) word = .ok d' ∧ Room d' rest.length := by
      unfold allocate
      split
      · exact takes d _ word room
      · exact ⟨d, rfl, fewer d _ room⟩
    obtain ⟨d', allocated, left⟩ := stored
    obtain ⟨result, run⟩ := ih d' (c.addEntry compData (c.bestPattern d word)) left
    refine ⟨result, ?_⟩
    rw [compressValues, compressValue, allocated]
    exact run

end Compressor

end Resister.Cache.DictionaryCompressor
