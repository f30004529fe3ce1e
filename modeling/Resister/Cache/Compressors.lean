import Mathlib
import Resister.Cache.DictionaryCompressor

/-!
# CPack, FPC and FPCD

The three compressors of 32-bit words.
-/

namespace Resister.Cache

open Resister.Base DictionaryCompressor List

def DictionaryCompressor.plain {Number : Type} (_ : List (Pattern Number)) (pattern : Pattern Number) :
    Pattern Number := pattern

namespace CPack

inductive PatternNumber where
  | ZZZZ | XXXX | MMMM | MMXX | ZZZX | MMMX
  deriving DecidableEq, Repr

open PatternNumber

def patternZZZZ := PatternClass.maskedValue ZZZZ 0x0 2 0#32 0xFFFFFFFF#32 id false
def patternXXXX := PatternClass.uncompressed XXXX 0x1 2 id
def patternMMMM := PatternClass.masked MMMM 0x2 6 0xFFFFFFFF#32 true
def patternMMXX := PatternClass.masked MMXX 0xC 8 0xFFFF0000#32 true
def patternZZZX := PatternClass.maskedValue ZZZX 0xD 4 0#32 0xFFFFFF00#32 id false
def patternMMMX := PatternClass.masked MMMX 0xE 8 0xFFFFFF00#32 true

def addToDictionary (d : Dictionary) (data : Word) : Except Fault Dictionary :=
  if room : d.numEntries < d.entries.length then .ok (d.push data room) else .error .assertion

def compressor (dictionarySize : Nat) : Compressor PatternNumber where
  dictionarySize
  patterns := [patternZZZZ, patternMMMM, patternZZZX, patternMMMX, patternMMXX]
  noMatch := patternXXXX
  addToDictionary
  added := plain

end CPack

namespace FPC

inductive PatternNumber where
  | zeroRun | signExtended4Bits | signExtended1Byte | signExtendedHalfword | zeroPaddedHalfword
  | signExtendedTwoHalfwords | repBytes | uncompressed
  deriving DecidableEq, Repr

def nowhere (_ : Int) : Int := -1

def zeroRun : PatternClass PatternNumber :=
  let base := PatternClass.maskedValue .zeroRun 0 3 0#32 0xFFFFFFFF#32 nowhere false
  { base with
    make := fun bytes location =>
      { base.make bytes location with zeroRun := some { runLength := 0, realSize := 0 } } }

def signExtended4Bits := PatternClass.signExtended PatternNumber.signExtended4Bits 1 3 4#32 false
def signExtended1Byte := PatternClass.signExtended PatternNumber.signExtended1Byte 2 3 8#32 false
def signExtendedHalfword :=
  PatternClass.signExtended PatternNumber.signExtendedHalfword 3 3 16#32 false
def zeroPaddedHalfword :=
  PatternClass.maskedValue PatternNumber.zeroPaddedHalfword 4 3 0#32 0x0000FFFF#32 nowhere false
def signExtendedTwoHalfwords :=
  PatternClass.signExtendedTwoHalfwords PatternNumber.signExtendedTwoHalfwords 5 3
def repBytes := PatternClass.repeatedValue PatternNumber.repBytes 6 3 nowhere false
def uncompressed := PatternClass.uncompressed PatternNumber.uncompressed 7 3 nowhere

def setRealSize (pattern : Pattern PatternNumber) (size : Nat) : Pattern PatternNumber :=
  { pattern with zeroRun := pattern.zeroRun.map fun run => { run with realSize := pattern.length + size } }

def setRunLength (pattern : Pattern PatternNumber) (length : Nat) : Pattern PatternNumber :=
  { pattern with zeroRun := pattern.zeroRun.map fun run => { run with runLength := length } }

/-- `FPCCompData::addEntry`: the first zero of a run carries the size of the run, and so does the
one that follows a run of the greatest length; the others are of size zero. -/
def added (zeroRunSizeBits : BitVec 32) (entries : List (Pattern PatternNumber))
    (pattern : Pattern PatternNumber) : Pattern PatternNumber :=
  if pattern.patternNumber = .zeroRun then
    match entries.getLast? with
    | none => setRealSize pattern zeroRunSizeBits.toNat
    | some back =>
      if back.patternNumber ≠ .zeroRun then setRealSize pattern zeroRunSizeBits.toNat
      else
        let runLength := (back.zeroRun.map ZeroRun.runLength).getD 0
        if BitVec.ofNat 64 runLength = mask zeroRunSizeBits then
          setRealSize pattern zeroRunSizeBits.toNat
        else setRunLength pattern (runLength + 1)
  else pattern

def addToDictionary (d : Dictionary) (_ : Word) : Except Fault Dictionary := .ok d

def compressor (dictionarySize : Nat) (zeroRunSizeBits : BitVec 32) : Compressor PatternNumber where
  dictionarySize
  patterns := [zeroRun, signExtended4Bits, signExtended1Byte, signExtendedHalfword,
    zeroPaddedHalfword, signExtendedTwoHalfwords, repBytes]
  noMatch := uncompressed
  addToDictionary
  added := added zeroRunSizeBits

end FPC

namespace FPCD

inductive PatternNumber where
  | ZZZZ | FFFF | MMMMPenultimate | MMMMPrevious | ZZZX | XZZZ | RRRR | MMMXPenultimate
  | MMMXPrevious | ZZXX | ZXZX | FFXX | XXZZ | MMXXPenultimate | MMXXPrevious | XXXX
  deriving DecidableEq, Repr

open PatternNumber

def prefixSize : Nat := 4
def previousIndex : Int := 1
def penultimateIndex : Int := 0

def patternZZZZ := PatternClass.maskedValue ZZZZ 0x0 prefixSize 0#32 0xFFFFFFFF#32 id true
def patternFFFF := PatternClass.maskedValue FFFF 0x1 prefixSize 0xFFFFFFFF#32 0xFFFFFFFF#32 id true
def patternMMMMPrevious :=
  PatternClass.locatedMasked MMMMPrevious 0x2 prefixSize 0xFFFFFFFF#32 previousIndex true
def patternMMMMPenultimate :=
  PatternClass.locatedMasked MMMMPenultimate 0x3 prefixSize 0xFFFFFFFF#32 penultimateIndex true
def patternZZZX := PatternClass.maskedValue ZZZX 0x4 prefixSize 0#32 0xFFFFFF00#32 id true
def patternXZZZ := PatternClass.maskedValue XZZZ 0x5 prefixSize 0#32 0x00FFFFFF#32 id true
def patternRRRR := PatternClass.repeatedValue RRRR 0x6 prefixSize id true
def patternMMMXPrevious :=
  PatternClass.locatedMasked MMMXPrevious 0x7 prefixSize 0xFFFFFF00#32 previousIndex true
def patternMMMXPenultimate :=
  PatternClass.locatedMasked MMMXPenultimate 0x8 prefixSize 0xFFFFFF00#32 penultimateIndex true
def patternZZXX := PatternClass.maskedValue ZZXX 0x9 prefixSize 0#32 0xFFFF0000#32 id true
def patternZXZX := PatternClass.maskedValue ZXZX 0xA prefixSize 0#32 0xFF00FF00#32 id true
def patternFFXX := PatternClass.maskedValue FFXX 0xB prefixSize 0xFFFFFFFF#32 0xFFFF0000#32 id true
def patternXXZZ := PatternClass.maskedValue XXZZ 0xC prefixSize 0#32 0x0000FFFF#32 id true
def patternMMXXPrevious :=
  PatternClass.locatedMasked MMXXPrevious 0xD prefixSize 0xFFFF0000#32 previousIndex true
def patternMMXXPenultimate :=
  PatternClass.locatedMasked MMXXPenultimate 0xE prefixSize 0xFFFF0000#32 penultimateIndex true
def patternXXXX := PatternClass.uncompressed XXXX 0xF prefixSize id

def addToDictionary (d : Dictionary) (data : Word) : Except Fault Dictionary :=
  if d.numEntries = 2 then
    .ok {
      entries := (d.entries.set 0 (d.entries.getD 1 0)).set 1 data
      numEntries := d.numEntries
      fits := by
        rw [List.length_set, List.length_set]
        exact d.fits }
  else if room : d.numEntries < d.entries.length then .ok (d.push data room)
  else .error .undefined

def compressor (dictionarySize : Nat) : Compressor PatternNumber where
  dictionarySize
  patterns := [patternZZZZ, patternFFFF, patternMMMMPrevious, patternMMMMPenultimate, patternZZZX,
    patternXZZZ, patternRRRR, patternMMMXPrevious, patternMMMXPenultimate, patternZZXX, patternZXZX,
    patternFFXX, patternXXZZ, patternMMXXPrevious, patternMMXXPenultimate]
  noMatch := patternXXXX
  addToDictionary
  added := plain

end FPCD

section Placement

theorem placed_id : PatternClass.Placed id := fun _ => .inl rfl

theorem placed_nowhere : PatternClass.Placed FPC.nowhere := fun _ => .inr rfl

end Placement

namespace CPack

theorem sound (dictionarySize : Nat) : (compressor dictionarySize).Sound where
  patterns := by
    simp only [compressor, forall_mem_cons, not_mem_nil, false_implies, implies_true,
      and_true]
    exact ⟨PatternClass.maskedValue_faithful _ _ placed_id, PatternClass.masked_faithful _,
      PatternClass.maskedValue_faithful _ _ placed_id, PatternClass.masked_faithful _,
      PatternClass.masked_faithful _⟩
  noMatch := PatternClass.uncompressed_faithful placed_id
  always _ _ _ := rfl
  grows d data d' run := by
    simp only [compressor, addToDictionary] at run
    split at run
    · cases run
      exact Nat.le_refl _
    · cases run
  added _ pattern := ⟨pattern.zeroRun, rfl⟩

theorem compress_succeeds {line : List (BitVec 64)} {dictionarySize : Nat}
    (enough : (Compressor.toChunks line).length ≤ dictionarySize) :
    ∃ compData, (compressor dictionarySize).compress line = .ok compData := by
  apply Compressor.compressValues_succeeds (fun d n => d.numEntries + n ≤ d.entries.length)
  · intro d n data room
    have free : d.numEntries < d.entries.length := by omega
    refine ⟨d.push data free, dif_pos free, ?_⟩
    simp only [Dictionary.push, length_set]
    omega
  · intro d n room
    omega
  · show 0 + _ ≤ (List.replicate dictionarySize (0 : Word)).length
    rw [length_replicate]
    omega

end CPack

namespace FPC

theorem zeroRun_faithful : zeroRun.Faithful := by
  intro bytes dictBytes location matched
  have base : (PatternClass.maskedValue PatternNumber.zeroRun 0 3 0#32 0xFFFFFFFF#32 nowhere
      false).Faithful := PatternClass.maskedValue_faithful _ _ placed_nowhere
  obtain ⟨located, back⟩ := base bytes dictBytes location matched
  exact { location := located, back := back }

theorem added_eq (zeroRunSizeBits : BitVec 32) (entries : List (Pattern PatternNumber))
    (pattern : Pattern PatternNumber) :
    ∃ run, added zeroRunSizeBits entries pattern = { pattern with zeroRun := run } := by
  unfold added
  split
  · cases entries.getLast? with
    | none => exact ⟨_, rfl⟩
    | some back =>
      dsimp only
      split
      · exact ⟨_, rfl⟩
      · split
        · exact ⟨_, rfl⟩
        · exact ⟨_, rfl⟩
  · exact ⟨pattern.zeroRun, rfl⟩

theorem sound (dictionarySize : Nat) (zeroRunSizeBits : BitVec 32) :
    (compressor dictionarySize zeroRunSizeBits).Sound where
  patterns := by
    simp only [compressor, forall_mem_cons, not_mem_nil, false_implies, implies_true,
      and_true]
    exact ⟨zeroRun_faithful, PatternClass.signExtended_faithful (by decide) (by decide),
      PatternClass.signExtended_faithful (by decide) (by decide),
      PatternClass.signExtended_faithful (by decide) (by decide),
      PatternClass.maskedValue_faithful _ _ placed_nowhere,
      PatternClass.signExtendedTwoHalfwords_faithful,
      PatternClass.repeatedValue_faithful placed_nowhere⟩
  noMatch := PatternClass.uncompressed_faithful placed_nowhere
  always _ _ _ := rfl
  grows d data d' run := by
    cases run
    omega
  added := added_eq zeroRunSizeBits

theorem compress_succeeds (line : List (BitVec 64)) (dictionarySize : Nat) (zeroRunSizeBits : BitVec 32) :
    ∃ compData, (compressor dictionarySize zeroRunSizeBits).compress line = .ok compData := by
  apply Compressor.compressValues_succeeds (fun _ _ => True)
  · exact fun d _ _ _ => ⟨d, rfl, trivial⟩
  · exact fun _ _ _ => trivial
  · trivial

end FPC

namespace FPCD

theorem sound (dictionarySize : Nat) : (compressor dictionarySize).Sound where
  patterns := by
    simp only [compressor, forall_mem_cons, not_mem_nil, false_implies, implies_true,
      and_true]
    exact ⟨PatternClass.maskedValue_faithful _ _ placed_id,
      PatternClass.maskedValue_faithful _ _ placed_id, PatternClass.locatedMasked_faithful _ _,
      PatternClass.locatedMasked_faithful _ _, PatternClass.maskedValue_faithful _ _ placed_id,
      PatternClass.maskedValue_faithful _ _ placed_id, PatternClass.repeatedValue_faithful placed_id,
      PatternClass.locatedMasked_faithful _ _, PatternClass.locatedMasked_faithful _ _,
      PatternClass.maskedValue_faithful _ _ placed_id, PatternClass.maskedValue_faithful _ _ placed_id,
      PatternClass.maskedValue_faithful _ _ placed_id, PatternClass.maskedValue_faithful _ _ placed_id,
      PatternClass.locatedMasked_faithful _ _, PatternClass.locatedMasked_faithful _ _⟩
  noMatch := PatternClass.uncompressed_faithful placed_id
  always _ _ _ := rfl
  grows d data d' run := by
    simp only [compressor, addToDictionary] at run
    split at run
    · cases run
      exact Nat.le_succ _
    · split at run
      · cases run
        exact Nat.le_refl _
      · cases run
  added _ pattern := ⟨pattern.zeroRun, rfl⟩

theorem compress_succeeds (line : List (BitVec 64)) {dictionarySize : Nat} (enough : 2 ≤ dictionarySize) :
    ∃ compData, (compressor dictionarySize).compress line = .ok compData := by
  apply Compressor.compressValues_succeeds (fun d _ => d.numEntries ≤ 2 ∧ 2 ≤ d.entries.length)
  · intro d n data room
    show ∃ d', addToDictionary d data = _ ∧ _
    unfold addToDictionary
    split
    next full =>
      refine ⟨_, rfl, room.1, ?_⟩
      simp only [length_set]
      exact room.2
    next more =>
      have free : d.numEntries < d.entries.length := by omega
      refine ⟨d.push data free, dif_pos free, ?_⟩
      simp only [Dictionary.push, length_set]
      omega
  · exact fun _ _ room => room
  · show 0 ≤ 2 ∧ 2 ≤ (List.replicate dictionarySize (0 : Word)).length
    rw [length_replicate]
    omega

end FPCD

/-- Every line of fewer than 256 words comes back from each of the compressors, whatever lies past
the end of the dictionary. `compress` itself needs room for the words: CPack asserts it, and FPCD
writes two entries. -/
theorem dictionary_compressors_lossless (line : List (BitVec 64)) (short : (Compressor.toChunks line).length < 256) :
    (∀ size, (CPack.compressor size).Lossless line ∧ ((Compressor.toChunks line).length ≤ size →
      ∃ compData, (CPack.compressor size).compress line = .ok compData)) ∧
    (∀ size bits, (FPC.compressor size bits).Lossless line ∧
      ∃ compData, (FPC.compressor size bits).compress line = .ok compData) ∧
    (∀ size, (FPCD.compressor size).Lossless line ∧ (2 ≤ size →
      ∃ compData, (FPCD.compressor size).compress line = .ok compData)) := by
  refine ⟨?_, ?_, ?_⟩
  · intro size
    exact ⟨(CPack.sound size).lossless short, CPack.compress_succeeds⟩
  · intro size bits
    exact ⟨(FPC.sound size bits).lossless short, FPC.compress_succeeds line size bits⟩
  · intro size
    exact ⟨(FPCD.sound size).lossless short, FPCD.compress_succeeds line⟩

/-- The second half of the line is found in the dictionary. -/
theorem dictionary_compressors_lossless_repeat :
    ∃ compData, (CPack.compressor 64).compress [0x12345678ABCDEF01#64, 0x12345678ABCDEF01#64] =
        .ok compData ∧
      ∀ beyond, (CPack.compressor 64).decompress beyond compData =
        .ok [0x12345678ABCDEF01#64, 0x12345678ABCDEF01#64] := by
  obtain ⟨lossless, succeeds⟩ := (dictionary_compressors_lossless
    [0x12345678ABCDEF01#64, 0x12345678ABCDEF01#64] (by decide)).1 64
  obtain ⟨compData, run⟩ := succeeds (by decide)
  exact ⟨compData, run, fun beyond => lossless beyond compData run⟩

example : ((CPack.compressor 64).compress [0x12345678ABCDEF01#64, 0x12345678ABCDEF01#64]).map
    (fun compData => compData.entries.map Pattern.patternNumber) =
      .ok [.XXXX, .XXXX, .MMMM, .MMMM] := by
  decide +kernel

end Resister.Cache
