import Mathlib
import Resister.Base.Bitfield

/-!
# Chunk generators

`ChunkGenerator` of `base/chunk_generator.hh`, with the rounding of `base/intmath.hh` it rests on.
-/

namespace Resister.Base

open BitVec Nat

def isPowerOf2 (n : Addr) : Bool := n != 0 && n &&& (n - 1) == 0

def roundUp (val align : Addr) : Except Stop Addr :=
  if isPowerOf2 align then .ok ((val + (align - 1)) &&& ~~~(align - 1)) else .error .assertion

/-- `std::min`. -/
def lesser (a b : Addr) : Addr := if b < a then b else a

structure ChunkGenerator where
  curAddr : Addr
  nextAddr : Addr
  curSize : Addr
  nextSize : Addr
  sizeLeft : Addr
  startAddr : Addr
  chunkSize : Addr
  deriving DecidableEq, Repr

namespace ChunkGenerator

def firstEnd (startAddr totalSize chunkSize : Addr) : Except Stop Addr :=
  if chunkSize = 0 then .ok (startAddr + totalSize)
  else do
    let boundary ← roundUp startAddr chunkSize
    let nextAddr := if startAddr = boundary then boundary + chunkSize else boundary
    .ok (lesser nextAddr (startAddr + totalSize))

def make (startAddr totalSize chunkSize : Addr) : Except Stop ChunkGenerator :=
  if chunkSize = 0 ∨ isPowerOf2 chunkSize then do
    let nextAddr ← firstEnd startAddr totalSize chunkSize
    let curSize := nextAddr - startAddr
    let sizeLeft := totalSize - curSize
    .ok { curAddr := startAddr, nextAddr, curSize, sizeLeft, nextSize := lesser sizeLeft chunkSize
          startAddr, chunkSize }
  else .error .assertion

variable (g : ChunkGenerator)

def addr : Addr := g.curAddr

def size : Addr := g.curSize

def complete : Addr := g.curAddr - g.startAddr

def done : Bool := g.curSize == 0

def last : Bool := g.sizeLeft == 0

def setNext (next : Addr) : Except Stop ChunkGenerator :=
  if next < g.nextAddr then .error .assertion
  else
    let skipping := lesser (next - g.nextAddr) g.sizeLeft
    let sizeLeft := g.sizeLeft - skipping
    if g.chunkSize = 0 then .error .assertion
    else do
      let boundary ← roundUp next g.chunkSize
      let toBoundary := boundary - next
      .ok { g with
            sizeLeft, curSize := g.curSize + skipping, nextAddr := next
            nextSize := if toBoundary = 0 then lesser sizeLeft g.chunkSize else toBoundary }

def next : Bool × ChunkGenerator :=
  if g.last then (false, { g with curSize := 0 })
  else
    let sizeLeft := g.sizeLeft - g.nextSize
    (true, { g with
             curAddr := g.nextAddr, curSize := g.nextSize, sizeLeft, nextAddr := g.nextAddr + g.nextSize
             nextSize := lesser sizeLeft g.chunkSize })

inductive Call where
  | next
  | setNext (p : Addr)
  deriving DecidableEq, Repr

end ChunkGenerator

/-- A generator with the chunks it has left behind and the positions given to `setNext`. -/
structure Iteration where
  gen : ChunkGenerator
  finished : List (Addr × Addr) := []
  positions : List Addr := []
  deriving DecidableEq, Repr

namespace Iteration

open ChunkGenerator (Call)

variable (it : Iteration)

def chunks : List (Addr × Addr) := it.finished ++ if it.gen.done then [] else [(it.gen.addr, it.gen.size)]

def step : Call → Except Stop Iteration
  | .next => .ok { it with gen := it.gen.next.2, finished := it.chunks }
  | .setNext p => do
    let gen ← it.gen.setNext p
    .ok { it with gen, positions := p :: it.positions }

def start (startAddr totalSize chunkSize : Addr) : Except Stop Iteration := do
  let gen ← ChunkGenerator.make startAddr totalSize chunkSize
  .ok { gen }

end Iteration

section Rounding

variable {k : Nat}

theorem twoPow_sub_one (small : k < 64) : BitVec.twoPow 64 k - 1 = mask (BitVec.ofNat 32 k) := by
  have width : (BitVec.ofNat 32 k).toNat = k := by
    rw [toNat_ofNat]
    omega
  rw [mask, width, if_neg (by omega), BitVec.twoPow]

theorem toNat_twoPow (small : k < 64) : (BitVec.twoPow 64 k).toNat = 2 ^ k := by
  rw [BitVec.toNat_twoPow]
  apply Nat.mod_eq_of_lt
  exact Nat.pow_lt_pow_right (by decide) small

theorem twoPow_ne_zero (small : k < 64) : BitVec.twoPow 64 k ≠ 0 := by
  intro zero
  have value := toNat_twoPow small
  rw [zero] at value
  exact absurd value.symm (Nat.two_pow_pos k).ne'

theorem isPowerOf2_twoPow (small : k < 64) : isPowerOf2 (BitVec.twoPow 64 k) = true := by
  have width : (BitVec.ofNat 32 k).toNat = k := by
    rw [toNat_ofNat]
    omega
  have clear : BitVec.twoPow 64 k &&& (BitVec.twoPow 64 k - 1) = 0 := by
    rw [twoPow_sub_one small]
    ext i bound
    simp only [getElem_and, getElem_twoPow, getElem_mask, width]
    by_cases same : i = k
    · simp [same]
    · simp [same]
  rw [isPowerOf2, Bool.and_eq_true]
  exact ⟨bne_iff_ne.mpr (twoPow_ne_zero small), beq_iff_eq.mpr clear⟩

theorem and_not_mask (small : k < 64) (x : Addr) :
    (x &&& ~~~(BitVec.twoPow 64 k - 1)).toNat = x.toNat / 2 ^ k * 2 ^ k := by
  have width : (BitVec.ofNat 32 k).toNat = k := by
    rw [toNat_ofNat]
    omega
  have shifted : x &&& ~~~(BitVec.twoPow 64 k - 1) = (x >>> k) <<< k := by
    rw [twoPow_sub_one small]
    ext i bound
    by_cases low : i < k
    · simp [width, low]
    · have back : k + (i - k) = i := by omega
      simp [width, low, back, bound]
  rw [shifted, toNat_shiftLeft, toNat_ushiftRight, Nat.shiftRight_eq_div_pow, Nat.shiftLeft_eq]
  apply Nat.mod_eq_of_lt
  exact lt_of_le_of_lt (Nat.div_mul_le_self _ _) x.isLt

def boundary (k n : Nat) : Nat := (n + (2 ^ k - 1)) / 2 ^ k * 2 ^ k

def boundaryAfter (k n : Nat) : Nat := (n / 2 ^ k + 1) * 2 ^ k

theorem dvd_boundary (k n : Nat) : 2 ^ k ∣ boundary k n := dvd_mul_left _ _

theorem dvd_boundaryAfter (k n : Nat) : 2 ^ k ∣ boundaryAfter k n := dvd_mul_left _ _

theorem boundary_bounds (k n : Nat) : n ≤ boundary k n ∧ boundary k n < n + 2 ^ k := by
  have pos := Nat.two_pow_pos k
  have split := Nat.div_add_mod (n + (2 ^ k - 1)) (2 ^ k)
  have rest := mod_lt (n + (2 ^ k - 1)) pos
  rw [mul_comm] at split
  unfold boundary
  omega

theorem boundaryAfter_bounds (k n : Nat) : n < boundaryAfter k n ∧ boundaryAfter k n ≤ n + 2 ^ k := by
  have split := Nat.div_add_mod n (2 ^ k)
  have rest := Nat.mod_lt n (Nat.two_pow_pos k)
  rw [Nat.mul_comm] at split
  unfold boundaryAfter
  rw [Nat.add_mul]
  omega

theorem eq_of_dvd_of_lt {a b m : Nat} (left : m ∣ a) (right : m ∣ b) (near : a < b + m) (far : b < a + m) :
    a = b := by
  obtain ⟨x, rfl⟩ := left
  obtain ⟨y, rfl⟩ := right
  rw [← Nat.mul_succ] at near far
  have below : x < y + 1 := Nat.lt_of_mul_lt_mul_left near
  have above : y < x + 1 := Nat.lt_of_mul_lt_mul_left far
  rw [show x = y by omega]

theorem boundary_of_dvd {n : Nat} (aligned : 2 ^ k ∣ n) : boundary k n = n := by
  obtain ⟨low, high⟩ := boundary_bounds k n
  exact eq_of_dvd_of_lt (dvd_boundary k n) aligned high (by omega)

theorem boundaryAfter_of_dvd {n : Nat} (aligned : 2 ^ k ∣ n) : boundaryAfter k n = n + 2 ^ k := by
  rw [boundaryAfter, Nat.add_mul, Nat.div_mul_cancel aligned, Nat.one_mul]

theorem boundaryAfter_of_not_dvd {n : Nat} (unaligned : ¬ 2 ^ k ∣ n) : boundaryAfter k n = boundary k n := by
  obtain ⟨low, high⟩ := boundary_bounds k n
  obtain ⟨low', high'⟩ := boundaryAfter_bounds k n
  have apart : boundary k n ≠ n := fun same => unaligned (same ▸ dvd_boundary k n)
  exact eq_of_dvd_of_lt (dvd_boundaryAfter k n) (dvd_boundary k n) (by omega) (by omega)

theorem roundUp_twoPow (small : k < 64) {val : Addr} (fits : boundary k val.toNat < 2 ^ 64) :
    ∃ b, roundUp val (BitVec.twoPow 64 k) = .ok b ∧ b.toNat = boundary k val.toNat := by
  refine ⟨_, if_pos (isPowerOf2_twoPow small), ?_⟩
  have pos := Nat.two_pow_pos k
  have whole : 2 ^ k ∣ 2 ^ 64 := Nat.pow_dvd_pow 2 small.le
  have room : boundary k val.toNat + 2 ^ k ≤ 2 ^ 64 := by
    obtain ⟨x, hx⟩ := dvd_boundary k val.toNat
    obtain ⟨y, hy⟩ := whole
    rw [hx, hy] at fits ⊢
    rw [← Nat.mul_succ]
    exact Nat.mul_le_mul_left _ (Nat.lt_of_mul_lt_mul_left fits)
  have ones : (BitVec.twoPow 64 k - 1).toNat = 2 ^ k - 1 := by
    have value := toNat_twoPow small
    rw [toNat_sub_of_le, value]
    · rfl
    · rw [le_def, value]
      exact pos
  obtain ⟨low, high⟩ := boundary_bounds k val.toNat
  have sum : (val + (BitVec.twoPow 64 k - 1)).toNat = val.toNat + (2 ^ k - 1) := by
    rw [toNat_add, ones]
    apply Nat.mod_eq_of_lt
    omega
  rw [and_not_mask small, sum]
  rfl

end Rounding

theorem toNat_lesser (a b : Addr) : (lesser a b).toNat = min a.toNat b.toNat := by
  unfold lesser
  split
  next less => exact (Nat.min_eq_right (lt_def.mp less).le).symm
  next more => exact (Nat.min_eq_left (Nat.le_of_not_lt fun less => more (lt_def.mpr less))).symm

namespace ChunkGenerator

/-- What a generator for a region that ends at `stop` knows. The last chunk may have been followed by a position from
which no chunk starts. -/
structure Valid (k stop : Nat) (g : ChunkGenerator) : Prop where
  inside : stop < 2 ^ 64
  chunk : g.chunkSize = BitVec.twoPow 64 k
  left : g.nextAddr.toNat + g.sizeLeft.toNat = stop
  current : g.curSize ≠ 0 → g.curAddr.toNat + g.curSize.toNat = g.nextAddr.toNat
  running : g.sizeLeft ≠ 0 → g.curSize ≠ 0
  fits : g.sizeLeft ≠ 0 → 0 < g.nextSize.toNat ∧ g.nextSize.toNat ≤ g.sizeLeft.toNat
  ends : g.sizeLeft ≠ 0 →
    2 ^ k ∣ g.nextAddr.toNat + g.nextSize.toNat ∨ g.nextAddr.toNat + g.nextSize.toNat = stop

variable {k stop : Nat} {g : ChunkGenerator}

theorem last_iff : g.last = true ↔ g.sizeLeft.toNat = 0 := by
  rw [last, beq_iff_eq, ← toNat_inj]
  rfl

theorem toNat_ne_zero {a : Addr} : a ≠ 0 ↔ 0 < a.toNat := by
  rw [Nat.pos_iff_ne_zero, ne_eq, ne_eq, ← toNat_inj]
  rfl

theorem lesser_chunk (small : k < 64) {n : Nat} (aligned : 2 ^ k ∣ n) {rest : Addr} (some : rest ≠ 0)
    (total : n + rest.toNat = stop) :
    (0 < (lesser rest (BitVec.twoPow 64 k)).toNat ∧ (lesser rest (BitVec.twoPow 64 k)).toNat ≤ rest.toNat) ∧
      (2 ^ k ∣ n + (lesser rest (BitVec.twoPow 64 k)).toNat ∨ n + (lesser rest (BitVec.twoPow 64 k)).toNat = stop) := by
  have pos := Nat.two_pow_pos k
  have more := toNat_ne_zero.mp some
  rw [toNat_lesser, toNat_twoPow small]
  refine ⟨⟨by omega, by omega⟩, ?_⟩
  rcases le_total rest.toNat (2 ^ k) with short | long
  · right
    omega
  · left
    rw [min_eq_right long]
    exact dvd_add aligned (dvd_refl _)

theorem Valid.next (small : k < 64) (valid : Valid k stop g) : Valid k stop g.next.2 := by
  unfold ChunkGenerator.next
  by_cases final : g.last = true
  · rw [if_pos final]
    have none : g.sizeLeft = 0 := by simpa [last] using final
    exact
      { inside := valid.inside
        chunk := valid.chunk
        left := valid.left
        current := fun more => absurd rfl more
        running := fun more => absurd none more
        fits := fun more => absurd none more
        ends := fun more => absurd none more }
  · rw [if_neg final]
    have more : g.sizeLeft ≠ 0 := by simpa [last] using final
    obtain ⟨positive, bound⟩ := valid.fits more
    have total := valid.left
    have inside := valid.inside
    have sum : (g.nextAddr + g.nextSize).toNat = g.nextAddr.toNat + g.nextSize.toNat := by
      rw [toNat_add]
      apply mod_eq_of_lt
      omega
    have rest : (g.sizeLeft - g.nextSize).toNat = g.sizeLeft.toNat - g.nextSize.toNat :=
      toNat_sub_of_le (le_def.mpr bound)
    have left : (g.nextAddr + g.nextSize).toNat + (g.sizeLeft - g.nextSize).toNat = stop := by omega
    -- Unless the region is used up, this chunk ends at a boundary.
    have follows : g.sizeLeft - g.nextSize ≠ 0 → 2 ^ k ∣ (g.nextAddr + g.nextSize).toNat := by
      intro again
      have again' := toNat_ne_zero.mp again
      rcases valid.ends more with aligned | final
      · rw [sum]
        exact aligned
      · omega
    have coming := fun again => lesser_chunk small (follows again) again left
    rw [← valid.chunk] at coming
    exact
      { inside
        chunk := valid.chunk
        left
        current := fun _ => sum.symm
        running := fun _ => toNat_ne_zero.mpr positive
        fits := fun again => (coming again).1
        ends := fun again => (coming again).2 }

theorem position_chunk (small : k < 64) (inside : stop < 2 ^ 64) {p b rest : Addr}
    (rounded : roundUp p (BitVec.twoPow 64 k) = .ok b) (some : rest ≠ 0) (total : p.toNat + rest.toNat = stop)
    (reach : boundary k p.toNat ≤ stop) {size : Addr}
    (chosen : size = if b - p = 0 then lesser rest (BitVec.twoPow 64 k) else b - p) :
    (0 < size.toNat ∧ size.toNat ≤ rest.toNat) ∧ (2 ^ k ∣ p.toNat + size.toNat ∨ p.toNat + size.toNat = stop) := by
  have fits : boundary k p.toNat < 2 ^ 64 := lt_of_le_of_lt reach inside
  obtain ⟨b', rounded', value⟩ := roundUp_twoPow small fits
  rw [rounded] at rounded'
  injection rounded' with rounded'
  subst rounded'
  obtain ⟨low, high⟩ := boundary_bounds k p.toNat
  have distance : (b - p).toNat = boundary k p.toNat - p.toNat := by
    rw [toNat_sub_of_le, value]
    rw [le_def, value]
    exact low
  by_cases here : b - p = 0
  · rw [if_pos here] at chosen
    have zero : (b - p).toNat = 0 := congrArg BitVec.toNat here
    have aligned : 2 ^ k ∣ p.toNat := by
      rw [show p.toNat = boundary k p.toNat by omega]
      exact dvd_boundary k _
    rw [chosen]
    exact lesser_chunk small aligned some total
  · rw [if_neg here] at chosen
    have positive := toNat_ne_zero.mp here
    rw [chosen, distance]
    refine ⟨⟨by omega, by omega⟩, Or.inl ?_⟩
    rw [Nat.add_sub_cancel' low]
    exact dvd_boundary k _

/-- What `setNext` leaves, for a position between the next chunk and the end of the region. -/
structure Moved (k stop : Nat) (p : Addr) (g g' : ChunkGenerator) : Prop where
  chunk : g'.chunkSize = g.chunkSize
  addr : g'.curAddr = g.curAddr
  next : g'.nextAddr = p
  left : p.toNat + g'.sizeLeft.toNat = stop
  idle : g.curSize = 0 → g'.curSize = 0
  grown : g.curSize ≠ 0 → g'.curSize.toNat = g.curSize.toNat + (p.toNat - g.nextAddr.toNat)
  size : ∃ b, roundUp p (BitVec.twoPow 64 k) = .ok b ∧
    g'.nextSize = if b - p = 0 then lesser g'.sizeLeft (BitVec.twoPow 64 k) else b - p

theorem setNext_moved (small : k < 64) (valid : Valid k stop g) {p : Addr} (after : g.nextAddr.toNat ≤ p.toNat)
    (before : p.toNat ≤ stop) : ∃ g', g.setNext p = .ok g' ∧ Moved k stop p g g' := by
  have total := valid.left
  have inside := valid.inside
  have rounded : roundUp p (BitVec.twoPow 64 k) =
      .ok ((p + (BitVec.twoPow 64 k - 1)) &&& ~~~(BitVec.twoPow 64 k - 1)) := if_pos (isPowerOf2_twoPow small)
  have accepted : ¬ p < g.nextAddr := fun less => absurd (lt_def.mp less) (not_lt.mpr after)
  have chunked : g.chunkSize ≠ 0 := by
    rw [valid.chunk]
    exact twoPow_ne_zero small
  have skipping : (lesser (p - g.nextAddr) g.sizeLeft).toNat = p.toNat - g.nextAddr.toNat := by
    rw [toNat_lesser, toNat_sub_of_le (le_def.mpr after)]
    omega
  have rest : (g.sizeLeft - lesser (p - g.nextAddr) g.sizeLeft).toNat = stop - p.toNat := by
    rw [toNat_sub_of_le (le_def.mpr (by omega)), skipping]
    omega
  have set : g.setNext p = .ok
      { g with
        sizeLeft := g.sizeLeft - lesser (p - g.nextAddr) g.sizeLeft
        curSize := g.curSize + lesser (p - g.nextAddr) g.sizeLeft
        nextAddr := p
        nextSize :=
          if ((p + (BitVec.twoPow 64 k - 1)) &&& ~~~(BitVec.twoPow 64 k - 1)) - p = 0 then
            lesser (g.sizeLeft - lesser (p - g.nextAddr) g.sizeLeft) (BitVec.twoPow 64 k)
          else ((p + (BitVec.twoPow 64 k - 1)) &&& ~~~(BitVec.twoPow 64 k - 1)) - p } := by
    rw [setNext, if_neg accepted]
    simp only [if_neg chunked]
    rw [valid.chunk, rounded]
    rfl
  refine ⟨_, set, { chunk := rfl, addr := rfl, next := rfl, left := ?_, idle := ?_, grown := ?_, size := ⟨_, rounded, rfl⟩ }⟩
  · show p.toNat + (g.sizeLeft - lesser (p - g.nextAddr) g.sizeLeft).toNat = stop
    omega
  · intro idle
    -- The region is used up then, and nothing is skipped.
    have spent : g.sizeLeft.toNat = 0 := by
      by_contra more
      exact valid.running (toNat_ne_zero.mpr (pos_of_ne_zero more)) idle
    show g.curSize + lesser (p - g.nextAddr) g.sizeLeft = 0
    apply eq_of_toNat_eq
    rw [idle, zero_add, skipping]
    show p.toNat - g.nextAddr.toNat = 0
    omega
  · intro some
    have ends := valid.current some
    show (g.curSize + lesser (p - g.nextAddr) g.sizeLeft).toNat = g.curSize.toNat + (p.toNat - g.nextAddr.toNat)
    rw [toNat_add, skipping]
    apply mod_eq_of_lt
    omega

theorem Valid.setNext (small : k < 64) (valid : Valid k stop g) {p : Addr} {g' : ChunkGenerator}
    (moved : Moved k stop p g g') (after : g.nextAddr.toNat ≤ p.toNat)
    (reachable : p.toNat = stop ∨ boundary k p.toNat ≤ stop) : Valid k stop g' := by
  have total := valid.left
  have rest := moved.left
  have ongoing : g'.sizeLeft ≠ 0 → p.toNat < stop := by
    intro more
    have more' := toNat_ne_zero.mp more
    omega
  have busy : p.toNat < stop → g.curSize ≠ 0 := by
    intro less
    apply valid.running
    apply toNat_ne_zero.mpr
    omega
  have coming : g'.sizeLeft ≠ 0 → (0 < g'.nextSize.toNat ∧ g'.nextSize.toNat ≤ g'.sizeLeft.toNat) ∧
      (2 ^ k ∣ p.toNat + g'.nextSize.toNat ∨ p.toNat + g'.nextSize.toNat = stop) := by
    intro more
    obtain ⟨b, rounded, chosen⟩ := moved.size
    have reach : boundary k p.toNat ≤ stop := reachable.resolve_left (ongoing more).ne
    exact position_chunk small valid.inside rounded more rest reach chosen
  have running : g.curSize ≠ 0 → 0 < g'.curSize.toNat := by
    intro some
    have positive := toNat_ne_zero.mp some
    rw [moved.grown some]
    omega
  have same := moved.next
  exact
    { inside := valid.inside
      chunk := moved.chunk.trans valid.chunk
      left := by
        rw [same]
        exact rest
      current := by
        intro some
        have some' : g.curSize ≠ 0 := fun idle => some (moved.idle idle)
        have ends := valid.current some'
        rw [moved.addr, moved.grown some', same]
        omega
      running := fun more => toNat_ne_zero.mpr (running (busy (ongoing more)))
      fits := fun more => (coming more).1
      ends := by
        rw [same]
        exact fun more => (coming more).2 }

theorem make_valid (small : k < 64) {startAddr totalSize : Addr}
    (inside : startAddr.toNat + totalSize.toNat < 2 ^ 64) (first : boundaryAfter k startAddr.toNat < 2 ^ 64) :
    ∃ g, make startAddr totalSize (BitVec.twoPow 64 k) = .ok g ∧ g.curAddr = startAddr ∧
      Valid k (startAddr.toNat + totalSize.toNat) g ∧ (g.curSize = 0 → totalSize.toNat = 0) ∧
      (g.curSize ≠ 0 → 2 ^ k ∣ g.nextAddr.toNat ∨ g.nextAddr.toNat = startAddr.toNat + totalSize.toNat) := by
  have pos := Nat.two_pow_pos k
  have ending : (startAddr + totalSize).toNat = startAddr.toNat + totalSize.toNat := by
    rw [toNat_add]
    exact mod_eq_of_lt inside
  obtain ⟨low, high⟩ := boundary_bounds k startAddr.toNat
  obtain ⟨after, near⟩ := boundaryAfter_bounds k startAddr.toNat
  have fits : boundary k startAddr.toNat < 2 ^ 64 := by
    by_cases aligned : 2 ^ k ∣ startAddr.toNat
    · rw [boundary_of_dvd aligned]
      exact startAddr.isLt
    · rw [← boundaryAfter_of_not_dvd aligned]
      exact first
  obtain ⟨b, rounded, value⟩ := roundUp_twoPow small fits
  -- The boundary that the constructor finds is the first one after the start.
  have found : (if startAddr = b then b + BitVec.twoPow 64 k else b).toNat = boundaryAfter k startAddr.toNat := by
    by_cases same : startAddr = b
    · have aligned : 2 ^ k ∣ startAddr.toNat := by
        rw [same, value]
        exact dvd_boundary k _
      rw [if_pos same, toNat_add, toNat_twoPow small, ← same, ← boundaryAfter_of_dvd aligned]
      exact mod_eq_of_lt first
    · have unaligned : ¬ 2 ^ k ∣ startAddr.toNat := by
        intro aligned
        apply same
        apply eq_of_toNat_eq
        rw [value, boundary_of_dvd aligned]
      rw [if_neg same, value, boundaryAfter_of_not_dvd unaligned]
  obtain ⟨nextAddr, ends, reached⟩ : ∃ nextAddr, firstEnd startAddr totalSize (BitVec.twoPow 64 k) = .ok nextAddr ∧
      nextAddr.toNat = min (boundaryAfter k startAddr.toNat) (startAddr.toNat + totalSize.toNat) := by
    refine ⟨lesser (if startAddr = b then b + BitVec.twoPow 64 k else b) (startAddr + totalSize), ?_, ?_⟩
    · rw [firstEnd, if_neg (twoPow_ne_zero small), rounded]
      rfl
    · rw [toNat_lesser, found, ending]
  have size : (nextAddr - startAddr).toNat = nextAddr.toNat - startAddr.toNat := by
    apply toNat_sub_of_le
    rw [le_def]
    omega
  have rest : (totalSize - (nextAddr - startAddr)).toNat = totalSize.toNat - (nextAddr - startAddr).toNat := by
    apply toNat_sub_of_le
    rw [le_def]
    omega
  have left : nextAddr.toNat + (totalSize - (nextAddr - startAddr)).toNat = startAddr.toNat + totalSize.toNat := by
    omega
  have bounded : totalSize - (nextAddr - startAddr) ≠ 0 → nextAddr.toNat = boundaryAfter k startAddr.toNat := by
    intro more
    have more' := toNat_ne_zero.mp more
    omega
  have coming := fun more => lesser_chunk small (by rw [bounded more]; exact dvd_boundaryAfter k _) more left
  have made : make startAddr totalSize (BitVec.twoPow 64 k) = .ok
      { curAddr := startAddr, nextAddr, curSize := nextAddr - startAddr
        sizeLeft := totalSize - (nextAddr - startAddr)
        nextSize := lesser (totalSize - (nextAddr - startAddr)) (BitVec.twoPow 64 k)
        startAddr, chunkSize := BitVec.twoPow 64 k } := by
    rw [make, if_pos (Or.inr (isPowerOf2_twoPow small)), ends]
    rfl
  refine ⟨_, made, rfl,
    { inside
      chunk := rfl
      left
      current := ?_
      running := ?_
      fits := fun more => (coming more).1
      ends := fun more => (coming more).2 }, ?_, ?_⟩
  · intro _
    show startAddr.toNat + (nextAddr - startAddr).toNat = nextAddr.toNat
    omega
  · intro more
    have ends := bounded more
    apply toNat_ne_zero.mpr
    show 0 < (nextAddr - startAddr).toNat
    omega
  · intro none
    have zero : (nextAddr - startAddr).toNat = 0 := congrArg BitVec.toNat none
    omega
  · intro _
    show 2 ^ k ∣ nextAddr.toNat ∨ nextAddr.toNat = startAddr.toNat + totalSize.toNat
    rcases le_total (boundaryAfter k startAddr.toNat) (startAddr.toNat + totalSize.toNat) with short | long
    · left
      rw [reached, min_eq_left short]
      exact dvd_boundaryAfter k _
    · right
      rw [reached, min_eq_right long]

end ChunkGenerator

namespace Iteration

open ChunkGenerator (Call Valid)

/-- Chunks that are not empty and adjacent, and cover the addresses from `a` up to `b`. -/
def Tiles : Nat → List (Addr × Addr) → Nat → Prop
  | a, [], b => a = b
  | a, c :: rest, b => c.1.toNat = a ∧ 0 < c.2.toNat ∧ Tiles (a + c.2.toNat) rest b

/-- A call that the generator is meant for: `setNext` with a position from the next address up to the end. -/
def Allowed (stop : Nat) (it : Iteration) : Call → Prop
  | .next => True
  | .setNext p => it.gen.nextAddr.toNat ≤ p.toNat ∧ p.toNat ≤ stop

def Aligns (k stop : Nat) : Call → Prop
  | .next => True
  | .setNext p => p.toNat = stop ∨ boundary k p.toNat ≤ stop

/-- The iterations that come from allowed calls which all have property `P`. -/
inductive Reached (startAddr totalSize chunkSize : Addr) (P : Call → Prop) : Iteration → Prop
  | start {it : Iteration} (started : start startAddr totalSize chunkSize = .ok it) :
      Reached startAddr totalSize chunkSize P it
  | step {it it' : Iteration} {call : Call} (before : Reached startAddr totalSize chunkSize P it)
      (allowed : Allowed (startAddr.toNat + totalSize.toNat) it call) (meets : P call)
      (stepped : it.step call = .ok it') : Reached startAddr totalSize chunkSize P it'

/-- The chunks so far cover the region from its start, up to its end when there is no further one. -/
structure Covers (startAddr stop k : Nat) (it : Iteration) : Prop where
  tiles : ∃ reached ≤ stop, Tiles startAddr it.chunks reached ∧ (it.gen.last = true ↔ reached = stop)
  ends : ∀ c ∈ it.chunks, 2 ^ k ∣ c.1.toNat + c.2.toNat ∨ (∃ p ∈ it.positions, p.toNat = c.1.toNat + c.2.toNat) ∨
    c.1.toNat + c.2.toNat = stop
  advances : it.gen.next.1 = !it.gen.last ∧ it.gen.next.2.done = it.gen.last
  finished : it.gen.done = true → it.gen.last = true

theorem tiles_concat {a b : Nat} {c : Addr × Addr} {cs : List (Addr × Addr)} :
    Tiles a (cs ++ [c]) b ↔ Tiles a cs c.1.toNat ∧ 0 < c.2.toNat ∧ c.1.toNat + c.2.toNat = b := by
  induction cs generalizing a with
  | nil =>
    constructor
    · rintro ⟨rfl, positive, ends⟩
      exact ⟨rfl, positive, ends⟩
    · rintro ⟨rfl, positive, ends⟩
      exact ⟨rfl, positive, ends⟩
  | cons x rest ih =>
    simp only [List.cons_append, Tiles, ih]
    tauto

def position (stop : Nat) (it : Iteration) : Nat := if it.gen.done then stop else it.gen.curAddr.toNat

structure Sound (startAddr stop k : Nat) (it : Iteration) : Prop where
  valid : Valid k stop it.gen
  tiles : Tiles startAddr it.finished (it.position stop)
  ends : ∀ c ∈ it.finished, 2 ^ k ∣ c.1.toNat + c.2.toNat ∨
    (∃ p ∈ it.positions, p.toNat = c.1.toNat + c.2.toNat) ∨ c.1.toNat + c.2.toNat = stop
  current : it.gen.curSize ≠ 0 → 2 ^ k ∣ it.gen.nextAddr.toNat ∨
    (∃ p ∈ it.positions, p.toNat = it.gen.nextAddr.toNat) ∨ it.gen.nextAddr.toNat = stop

variable {startAddr stop k : Nat} {it it' : Iteration}

theorem done_iff {g : ChunkGenerator} : g.done = true ↔ g.curSize = 0 := by
  rw [ChunkGenerator.done, beq_iff_eq]

namespace Sound

theorem last_of_done (sound : Sound startAddr stop k it) (idle : it.gen.done = true) : it.gen.last = true := by
  rw [ChunkGenerator.last, beq_iff_eq]
  by_contra more
  exact sound.valid.running more (done_iff.mp idle)

theorem tiles_chunks (sound : Sound startAddr stop k it) :
    Tiles startAddr it.chunks (if it.gen.done then stop else it.gen.nextAddr.toNat) := by
  have tiles := sound.tiles
  unfold position at tiles
  unfold chunks
  by_cases idle : it.gen.done = true
  · rw [if_pos idle] at tiles ⊢
    rw [if_pos idle, List.append_nil]
    exact tiles
  · rw [if_neg idle] at tiles ⊢
    rw [if_neg idle]
    have some : it.gen.curSize ≠ 0 := fun none => idle (done_iff.mpr none)
    apply tiles_concat.mpr
    exact ⟨tiles, ChunkGenerator.toNat_ne_zero.mp some, sound.valid.current some⟩

theorem ends_chunks (sound : Sound startAddr stop k it) : ∀ c ∈ it.chunks, 2 ^ k ∣ c.1.toNat + c.2.toNat ∨
    (∃ p ∈ it.positions, p.toNat = c.1.toNat + c.2.toNat) ∨ c.1.toNat + c.2.toNat = stop := by
  intro c member
  rcases List.mem_append.mp member with early | now
  · exact sound.ends c early
  · by_cases idle : it.gen.done = true
    · rw [if_pos idle] at now
      cases now
    · rw [if_neg idle, List.mem_singleton] at now
      subst now
      have some : it.gen.curSize ≠ 0 := fun none => idle (done_iff.mpr none)
      have same : it.gen.addr.toNat + it.gen.size.toNat = it.gen.nextAddr.toNat := sound.valid.current some
      rw [same]
      exact sound.current some

theorem next (small : k < 64) (sound : Sound startAddr stop k it) (stepped : it.step .next = .ok it') :
    Sound startAddr stop k it' := by
  injection stepped with stepped
  subst stepped
  have tiles := sound.tiles_chunks
  have total := sound.valid.left
  by_cases final : it.gen.last = true
  · have after : it.gen.next.2 = { it.gen with curSize := 0 } := by rw [ChunkGenerator.next, if_pos final]
    have ended : it.gen.sizeLeft.toNat = 0 := ChunkGenerator.last_iff.mp final
    refine ⟨sound.valid.next small, ?_, sound.ends_chunks, ?_⟩
    · show Tiles startAddr it.chunks (if it.gen.next.2.done then stop else _)
      rw [after, if_pos (done_iff.mpr rfl)]
      split at tiles
      · exact tiles
      · rw [show stop = it.gen.nextAddr.toNat by omega]
        exact tiles
    · intro some
      change it.gen.next.2.curSize ≠ 0 at some
      rw [after] at some
      exact absurd rfl some
  · have more : it.gen.sizeLeft ≠ 0 := by simpa [ChunkGenerator.last] using final
    have running : ¬ it.gen.done = true := fun idle => final (sound.last_of_done idle)
    obtain ⟨positive, bound⟩ := sound.valid.fits more
    have addr : it.gen.next.2.curAddr = it.gen.nextAddr := by rw [ChunkGenerator.next, if_neg final]
    have size : it.gen.next.2.curSize = it.gen.nextSize := by rw [ChunkGenerator.next, if_neg final]
    have some : it.gen.next.2.curSize ≠ 0 := by
      rw [size]
      exact ChunkGenerator.toNat_ne_zero.mpr positive
    have valid := sound.valid.next small
    refine ⟨valid, ?_, sound.ends_chunks, ?_⟩
    · show Tiles startAddr it.chunks (if it.gen.next.2.done then stop else it.gen.next.2.curAddr.toNat)
      rw [if_neg (fun idle => some (done_iff.mp idle)), addr]
      rw [if_neg running] at tiles
      exact tiles
    · intro _
      show 2 ^ k ∣ it.gen.next.2.nextAddr.toNat ∨ _ ∨ it.gen.next.2.nextAddr.toNat = stop
      rw [← valid.current some, addr, size]
      rcases sound.valid.ends more with aligned | ends
      · exact Or.inl aligned
      · exact Or.inr (Or.inr ends)

theorem setNext (small : k < 64) (sound : Sound startAddr stop k it) {p : Addr} (allowed : Allowed stop it (.setNext p))
    (aligns : Aligns k stop (.setNext p)) (stepped : it.step (.setNext p) = .ok it') : Sound startAddr stop k it' := by
  obtain ⟨after, before⟩ := allowed
  obtain ⟨g', set, moved⟩ := ChunkGenerator.setNext_moved small sound.valid after before
  obtain ⟨g, again, same⟩ := bind_eq_ok.mp stepped
  rw [set] at again
  injection again with again
  injection same with same
  subst again same
  have idle : g'.done = it.gen.done := by
    rw [Bool.eq_iff_iff, done_iff, done_iff]
    constructor
    · intro none
      by_contra some
      have positive := ChunkGenerator.toNat_ne_zero.mp some
      have grown := moved.grown some
      have zero : g'.curSize.toNat = 0 := congrArg BitVec.toNat none
      omega
    · exact moved.idle
  refine ⟨sound.valid.setNext small moved after aligns, ?_, ?_, ?_⟩
  · show Tiles startAddr it.finished (if g'.done then stop else g'.curAddr.toNat)
    rw [idle, moved.addr]
    exact sound.tiles
  · intro c member
    rcases sound.ends c member with aligned | ⟨q, given, same⟩ | ended
    · exact Or.inl aligned
    · exact Or.inr (Or.inl ⟨q, List.mem_cons_of_mem _ given, same⟩)
    · exact Or.inr (Or.inr ended)
  · intro _
    right
    left
    refine ⟨p, List.mem_cons_self, ?_⟩
    show p.toNat = g'.nextAddr.toNat
    rw [moved.next]

theorem covers (sound : Sound startAddr stop k it) : Covers startAddr stop k it where
  tiles := by
    have total := sound.valid.left
    refine ⟨_, ?_, sound.tiles_chunks, ?_⟩
    · split
      · exact le_refl _
      · omega
    · rw [ChunkGenerator.last_iff]
      split
      next idle =>
        have ended := ChunkGenerator.last_iff.mp (sound.last_of_done idle)
        exact ⟨fun _ => rfl, fun _ => ended⟩
      · omega
  ends := sound.ends_chunks
  advances := by
    by_cases final : it.gen.last = true
    · rw [ChunkGenerator.next, if_pos final, final]
      exact ⟨rfl, rfl⟩
    · have more : it.gen.sizeLeft ≠ 0 := by simpa [ChunkGenerator.last] using final
      have positive := ChunkGenerator.toNat_ne_zero.mpr (sound.valid.fits more).1
      rw [ChunkGenerator.next, if_neg final, Bool.eq_false_of_not_eq_true final]
      refine ⟨rfl, ?_⟩
      rw [← Bool.not_eq_true, done_iff]
      exact positive
  finished := sound.last_of_done

end Sound

theorem start_sound {startAddr totalSize : Addr} (small : k < 64)
    (inside : startAddr.toNat + totalSize.toNat < 2 ^ 64) (first : boundaryAfter k startAddr.toNat < 2 ^ 64) :
    ∃ it, start startAddr totalSize (BitVec.twoPow 64 k) = .ok it ∧
      Sound startAddr.toNat (startAddr.toNat + totalSize.toNat) k it := by
  obtain ⟨g, made, addr, valid, empty, ends⟩ := ChunkGenerator.make_valid small inside first
  refine ⟨{ gen := g }, ?_, valid, ?_, ?_, ?_⟩
  · rw [start, made]
    rfl
  · show startAddr.toNat = if g.done then startAddr.toNat + totalSize.toNat else g.curAddr.toNat
    split
    next idle =>
      have none := empty (done_iff.mp idle)
      omega
    · rw [addr]
  · intro c member
    cases member
  · intro some
    rcases ends some with aligned | ended
    · exact Or.inl aligned
    · exact Or.inr (Or.inr ended)

theorem Reached.sound {startAddr totalSize : Addr} (small : k < 64)
    (inside : startAddr.toNat + totalSize.toNat < 2 ^ 64) (first : boundaryAfter k startAddr.toNat < 2 ^ 64)
    (reached : Reached startAddr totalSize (BitVec.twoPow 64 k)
      (Aligns k (startAddr.toNat + totalSize.toNat)) it) :
    Sound startAddr.toNat (startAddr.toNat + totalSize.toNat) k it := by
  induction reached with
  | start started =>
    obtain ⟨it, again, sound⟩ := start_sound small inside first
    rw [started] at again
    injection again with again
    subst again
    exact sound
  | @step it it' call _ allowed meets stepped ih =>
    cases call with
    | next => exact ih.next small stepped
    | setNext p => exact ih.setNext small allowed meets stepped

/-- If the first boundary after the start is an address, and the first boundary from each position on is not beyond the
end, the chunks cover the region. -/
theorem chunks_cover {startAddr totalSize : Addr} {k : Nat} (small : k < 64)
    (inside : startAddr.toNat + totalSize.toNat < 2 ^ 64) (first : boundaryAfter k startAddr.toNat < 2 ^ 64) :
    (∃ it, start startAddr totalSize (BitVec.twoPow 64 k) = .ok it) ∧
      ∀ it, Reached startAddr totalSize (BitVec.twoPow 64 k) (Aligns k (startAddr.toNat + totalSize.toNat)) it →
        Covers startAddr.toNat (startAddr.toNat + totalSize.toNat) k it ∧
          ∀ call, Allowed (startAddr.toNat + totalSize.toNat) it call → ∃ it', it.step call = .ok it' := by
  constructor
  · obtain ⟨it, started, -⟩ := start_sound small inside first
    exact ⟨it, started⟩
  · intro it reached
    have sound := reached.sound small inside first
    refine ⟨sound.covers, ?_⟩
    intro call allowed
    cases call with
    | next => exact ⟨_, rfl⟩
    | setNext p =>
      obtain ⟨g', set, -⟩ := ChunkGenerator.setNext_moved small sound.valid allowed.1 allowed.2
      refine ⟨{ it with gen := g', positions := p :: it.positions }, ?_⟩
      rw [step, set]
      rfl

/-- The unit test that skips bytes, up to its first position. -/
theorem chunks_cover_skipped :
    ∃ it, Reached 0 1024 (BitVec.twoPow 64 3) (Aligns 3 1024) it ∧ it.chunks = [(0, 8), (8, 15), (23, 1)] ∧
      Covers 0 1024 3 it := by
  have first : Reached 0 1024 (BitVec.twoPow 64 3) (Aligns 3 1024) ⟨⟨0, 8, 8, 8, 1016, 0, 8⟩, [], []⟩ := .start rfl
  have second : Reached 0 1024 (BitVec.twoPow 64 3) (Aligns 3 1024) ⟨⟨8, 16, 8, 8, 1008, 0, 8⟩, [(0, 8)], []⟩ :=
    @Reached.step _ _ _ _ _ _ .next first trivial trivial rfl
  have grown : Reached 0 1024 (BitVec.twoPow 64 3) (Aligns 3 1024) ⟨⟨8, 23, 15, 1, 1001, 0, 8⟩, [(0, 8)], [23]⟩ :=
    @Reached.step _ _ _ _ _ _ (.setNext 23) second ⟨by decide, by decide⟩ (Or.inr (by decide)) rfl
  have reached : Reached 0 1024 (BitVec.twoPow 64 3) (Aligns 3 1024)
      ⟨⟨23, 24, 1, 8, 1000, 0, 8⟩, [(0, 8), (8, 15)], [23]⟩ := @Reached.step _ _ _ _ _ _ .next grown trivial trivial rfl
  refine ⟨_, reached, rfl, ?_⟩
  exact ((chunks_cover (k := 3) (by decide) (by decide) (by decide)).2 _ reached).1

/-- A position one byte before the end: the next chunk goes on to a boundary outside of the region. -/
theorem chunks_beyond_end :
    ∃ it, Reached 0 10 (BitVec.twoPow 64 3) (fun _ => True) it ∧ it.chunks = [(0, 9), (9, 7)] ∧
      ¬ Covers 0 10 3 it := by
  have first : Reached 0 10 (BitVec.twoPow 64 3) (fun _ => True) ⟨⟨0, 8, 8, 2, 2, 0, 8⟩, [], []⟩ := .start rfl
  have grown : Reached 0 10 (BitVec.twoPow 64 3) (fun _ => True) ⟨⟨0, 9, 9, 7, 1, 0, 8⟩, [], [9]⟩ :=
    @Reached.step _ _ _ _ _ _ (.setNext 9) first ⟨by decide, by decide⟩ trivial rfl
  have reached : Reached 0 10 (BitVec.twoPow 64 3) (fun _ => True)
      ⟨⟨9, 16, 7, 8, 18446744073709551610, 0, 8⟩, [(0, 9)], [9]⟩ :=
    @Reached.step _ _ _ _ _ _ .next grown trivial trivial rfl
  refine ⟨_, reached, rfl, ?_⟩
  intro covers
  obtain ⟨stop, inside, tiles, -⟩ := covers.tiles
  obtain ⟨-, -, -, -, rfl⟩ : _ ∧ _ ∧ _ ∧ _ ∧ 16 = stop := tiles
  exact absurd inside (by decide)

end Iteration

end Resister.Base
