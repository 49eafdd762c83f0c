import Mathlib.Data.List.Nodup
import Mathlib.Data.List.Sort
import Hf2l.Lib.Word
import Hf2l.Lib.Binary64

/-!
# `Hf2l.Exchange.Transfers.Parts`: the parts of a multipart upload

How a blob is cut into parts. The part size is chosen when a record is created
(`internal/service/records.go`, `application.py`), each request for a part asks for the size of that
part (`PartSizeFor`, `part_size_for`), and the completion of an upload compares the parts that the
provider lists with these sizes (`Complete`, `complete`).

The Go code computes in `int64`. The Python code divides whole numbers as floats and takes the
ceiling. `partSizes` is what both are for: parts of one size, and a last part with the rest.
`multipart_geometry` says that they agree with it, for every blob and every configured part size
that the services accept.

A listing here is one that `Parts` has returned: it has checked that the provider gave every part a
number, a size and a tag.
-/

set_option autoImplicit false

namespace Hf2l.Exchange.Transfers

open Lib.Word Lib.Binary64

/-! ### Rows and failures -/

structure StorageFailure where
  code : String
  retryable : Bool := false
  uncertain : Bool := false
deriving DecidableEq, Repr

def invalidPartNumber : StorageFailure := { code := "invalid_part_number" }

def invalidParts : StorageFailure := { code := "invalid_parts" }

structure UploadedPart where
  number : Int
  etag : String
  size : Int
deriving DecidableEq, Repr

/-- The part sizes that `validate` of the storage settings accepts. -/
def AdmissiblePartSize (configured : Int) : Prop := 5242880 ≤ configured ∧ configured ≤ 5368709120

/-- The sizes that a record may declare for an attachment. -/
def AdmissibleSize (size : Int) : Prop := 0 ≤ size ∧ size ≤ 5 * 1024 ^ 4

/-- `parts` returns the parts by number. -/
def sorted (listing : List UploadedPart) : List UploadedPart :=
  listing.insertionSort fun p q => p.number ≤ q.number

/-! ### The Go service -/

namespace Go

/-- The part size of `CreateRecord`. -/
def partSize (configured length : Int) : Tracked Int := do
  let padded ← add length (10000 * 1048576)
  let last ← sub padded 1
  let units ← div last (10000 * 1048576)
  let size ← mul units 1048576
  return if size < configured then configured else size

/-- The number of parts, as `PartSizeFor` and `Complete` compute it. -/
def partCount (size partSize : Int) : Tracked Int :=
  if size > 0 then do
    let last ← sub size 1
    let whole ← div last partSize
    add 1 whole
  else pure 1

/-- `PartSizeFor`. -/
def partSizeFor (number size partSize : Int) : Tracked (Except StorageFailure Int) :=
  if size < 0 ∨ partSize ≤ 0 ∨ number < 1 then pure (.error invalidPartNumber)
  else do
    let count ← partCount size partSize
    if number > count then pure (.error invalidPartNumber)
    else do
      let offset ← sub number 1
      let limit ← div Lib.Word.maxInt64 partSize
      if offset > limit then pure (.error invalidPartNumber)
      else do
        let before ← mul offset partSize
        let left ← sub size before
        return .ok (if left < partSize then left else partSize)

/-- The loop of `Complete`, from the part after number `i`. -/
def completedParts (size partSize : Int) :
    Int → List UploadedPart → Tracked (Except StorageFailure (List (Int × String)))
  | _, [] => pure (.ok [])
  | i, p :: rest => do
    let n ← add i 1
    let expected ← partSizeFor n size partSize
    if expected ≠ .ok p.size ∨ p.number ≠ n then pure (.error invalidParts)
    else do
      let completed ← completedParts size partSize n rest
      return completed.map ((p.number, p.etag) :: ·)

/-- `Complete`, for an upload that is not complete yet: the parts it asks the provider to put
together. -/
def complete (listing : List UploadedPart) (size partSize : Int) :
    Tracked (Except StorageFailure (List (Int × String))) :=
  if size < 0 ∨ partSize ≤ 0 then pure (.error invalidParts)
  else do
    let count ← partCount size partSize
    if (listing.length : Int) ≠ count ∨ count > 10000 then pure (.error invalidParts)
    else completedParts size partSize 0 (sorted listing)

end Go

/-! ### The Python service -/

namespace Python

/-- The part size of `create_record`. -/
def partSize (configured size : Int) : Int :=
  max configured (⌈nearest (nearest ((size : ℚ) / 10000) / 1048576)⌉ * 1048576)

/-- `max(1, ceil(size / part_size))`. -/
def partCount (size partSize : Int) : Int := max 1 ⌈nearest ((size : ℚ) / partSize)⌉

/-- `part_size_for`. -/
def partSizeFor (number size partSize : Int) : Except StorageFailure Int :=
  if ¬ (1 ≤ number ∧ number ≤ partCount size partSize) then throw invalidPartNumber
  else pure (min partSize (size - (number - 1) * partSize))

/-- The `any` of `complete`, from number `n` on. -/
def anyMismatch (size partSize : Int) : Int → List UploadedPart → Except StorageFailure Bool
  | _, [] => pure false
  | n, p :: rest =>
    if p.number ≠ n then pure true
    else do
      let expected ← partSizeFor n size partSize
      if p.size ≠ expected then pure true else anyMismatch size partSize (n + 1) rest

/-- `complete`, for an upload that is not complete yet. -/
def complete (listing : List UploadedPart) (size partSize : Int) :
    Except StorageFailure (List (Int × String)) := do
  let parts := sorted listing
  if (parts.length : Int) ≠ partCount size partSize then throw invalidParts
  else
    let mismatch ← anyMismatch size partSize 1 parts
    if mismatch then throw invalidParts else return parts.map fun p => (p.number, p.etag)

end Python

/-! ### What the parts are -/

/-- The number of parts of a blob. -/
def countParts (size part : Nat) : Nat := 1 + (size - 1) / part

/-- The sizes of the parts of a blob. -/
def partSizes (size part : Nat) : List Nat :=
  (List.range (countParts size part)).map fun i => min part (size - i * part)

/-- The answer about part `number` of a blob with parts of these sizes. -/
def partAt (sizes : List Nat) (number : Int) : Except StorageFailure Int :=
  if number < 1 then throw invalidPartNumber
  else
    match sizes[(number - 1).toNat]? with
    | some size => pure size
    | none => throw invalidPartNumber

/-- The number and size of each part. -/
def expectedParts (sizes : List Nat) : List (Int × Int) :=
  sizes.zipIdx.map fun x => ((x.2 : Int) + 1, (x.1 : Int))

/-- A cut into parts that an upload can have. -/
structure Geometry (size part : Nat) (sizes : List Nat) : Prop where
  nonempty : sizes ≠ []
  few : sizes.length ≤ 10000
  total : sizes.sum = size
  full : ∀ i, i + 1 < sizes.length → sizes[i]? = some part
  last : 0 < size → ∃ rest, sizes.getLast? = some rest ∧ 0 < rest ∧ rest ≤ part

theorem one_le_countParts (size part : Nat) : 1 ≤ countParts size part := Nat.le_add_right _ _

@[simp] theorem length_partSizes (size part : Nat) :
    (partSizes size part).length = countParts size part := by
  simp [partSizes]

variable {part size configured : Nat}

theorem partSizes_get {i : Nat} (h : i < countParts size part) :
    (partSizes size part)[i]? = some (min part (size - i * part)) := by
  simp [partSizes, h]

/-- The parts but the last do not reach the end of the blob. -/
theorem mul_lt_of_lt_count {i : Nat} (hsize : 0 < size) (h : i < countParts size part) :
    i * part < size := by
  have hle : i ≤ (size - 1) / part := by
    unfold countParts at h
    omega
  have hmul : i * part ≤ size - 1 :=
    le_trans (Nat.mul_le_mul_right part hle) (Nat.div_mul_le_self _ _)
  omega

theorem size_le_count_mul (hpart : 0 < part) : size ≤ countParts size part * part := by
  have hlt := Nat.lt_div_mul_add hpart (a := size - 1)
  unfold countParts
  rw [Nat.add_mul, Nat.one_mul]
  omega

theorem sum_parts (size part k : Nat) :
    ((List.range k).map fun i => min part (size - i * part)).sum = min size (k * part) := by
  induction k with
  | zero => simp
  | succ k ih =>
    rw [List.range_succ, List.map_append, List.sum_append, ih, Nat.succ_mul]
    simp only [List.map_cons, List.map_nil, List.sum_cons, List.sum_nil]
    omega

theorem partSizes_geometry (hpart : 0 < part) (hfew : countParts size part ≤ 10000) :
    Geometry size part (partSizes size part) where
  nonempty := by
    intro h
    have hlen := congrArg List.length h
    rw [length_partSizes, List.length_nil] at hlen
    have hone := one_le_countParts size part
    omega
  few := by
    rw [length_partSizes]
    exact hfew
  total := by
    show ((List.range _).map _).sum = size
    rw [sum_parts]
    exact min_eq_left (size_le_count_mul hpart)
  full := by
    intro i hi
    rw [length_partSizes] at hi
    have hsize : 0 < size := by
      by_contra h0
      have : size = 0 := by omega
      subst this
      simp [countParts] at hi
    have hnext := mul_lt_of_lt_count hsize hi
    rw [partSizes_get (by omega)]
    rw [Nat.succ_mul] at hnext
    congr 1
    omega
  last := by
    intro hsize
    have hone := one_le_countParts size part
    have hlast : countParts size part - 1 < countParts size part := by omega
    refine ⟨min part (size - (countParts size part - 1) * part), ?_, ?_⟩
    · rw [List.getLast?_eq_getElem?, length_partSizes]
      exact partSizes_get hlast
    · have hin := mul_lt_of_lt_count hsize hlast
      omega

/-! ### The part size -/

/-- The part size of a blob: the configured one, or the least number of MiB that makes ten thousand
parts enough. -/
def chosenPart (configured size : Nat) : Nat :=
  max configured ((size + 10485759999) / 10485760000 * 1048576)

theorem count_chosenPart (configured size : Nat) (h : 0 < configured) :
    countParts size (chosenPart configured size) ≤ 10000 := by
  have hpart : 0 < chosenPart configured size := lt_of_lt_of_le h (le_max_left _ _)
  have henough : (size + 10485759999) / 10485760000 * 1048576 ≤ chosenPart configured size :=
    le_max_right _ _
  have hdiv : (size - 1) / chosenPart configured size ≤ 9999 := by
    apply Nat.le_of_lt_succ
    rw [Nat.div_lt_iff_lt_mul hpart]
    omega
  unfold countParts
  omega

theorem chosenPart_pos (h : 5242880 ≤ configured) : 0 < chosenPart configured size :=
  lt_of_lt_of_le (by omega) (le_max_left _ _)

theorem chosenPart_le (hc : configured ≤ 5368709120) (hs : size ≤ 5 * 1024 ^ 4) :
    chosenPart configured size ≤ 5368709120 := by
  unfold chosenPart
  omega

theorem go_partSize (hs : size ≤ 5 * 1024 ^ 4) :
    Go.partSize configured size = pure (chosenPart configured size : Int) := by
  have hunits : (size + 10485759999 : Int) / 10485760000 ≤ 525 := by omega
  have hpos : 0 ≤ (size + 10485759999 : Int) / 10485760000 := by omega
  unfold Go.partSize
  rw [add_eq (by unfold Fits; omega), pure_bind', sub_eq (by unfold Fits; omega), pure_bind',
    div_eq (by omega) (by unfold Fits; omega) (by omega), pure_bind']
  have hsum : (size : Int) + 10000 * 1048576 - 1 = size + 10485759999 := by omega
  rw [hsum, show (10000 * 1048576 : Int) = 10485760000 by norm_num, mul_eq (by unfold Fits; omega),
    pure_bind']
  apply congrArg pure
  unfold chosenPart
  split <;> omega

theorem python_partSize (hs : size ≤ 5 * 1024 ^ 4) :
    Python.partSize configured size = chosenPart configured size := by
  have hceil : ⌈nearest (nearest (((size : Int) : ℚ) / 10000) / 1048576)⌉ =
      ((size + 10485759999) / 10485760000 : Nat) := by
    rcases Nat.eq_zero_or_pos size with rfl | hpos
    · simp [nearest_zero]
    · have h := ceil_nearest_div (a := size) (b := 10000) (c := 1048576) (by omega) (by omega) hpos
        (by omega) (by omega)
      have hsum : (size + 10000 * 1048576 - 1) / (10000 * 1048576) =
          (size + 10485759999) / 10485760000 := by omega
      rw [ceil_natCast_div (by omega), hsum] at h
      simpa only [Int.cast_natCast, Nat.cast_ofNat] using h
  unfold Python.partSize chosenPart
  rw [hceil]
  push_cast
  rfl

/-! ### Single parts -/

/-- A number is that of a part, or there is no such part. -/
theorem partAt_cases (size part : Nat) (number : Int) :
    (∃ i : Nat, number = i + 1 ∧ i < countParts size part ∧
    partAt (partSizes size part) number = .ok (min part (size - i * part) : Nat)) ∨
    (¬ (1 ≤ number ∧ number ≤ countParts size part) ∧
      partAt (partSizes size part) number = .error invalidPartNumber) := by
  by_cases hone : number < 1
  · right
    exact ⟨by omega, if_pos hone⟩
  · obtain ⟨i, hi⟩ : ∃ i : Nat, number = i + 1 := ⟨(number - 1).toNat, by omega⟩
    subst hi
    have hindex : ((i : Int) + 1 - 1).toNat = i := by omega
    unfold partAt
    rw [if_neg hone, hindex]
    by_cases hlt : i < countParts size part
    · left
      refine ⟨i, rfl, hlt, ?_⟩
      rw [partSizes_get hlt]
      rfl
    · right
      refine ⟨by omega, ?_⟩
      rw [List.getElem?_eq_none (by rw [length_partSizes]; omega)]
      rfl

/-- The size of a part, without truncated subtraction. -/
theorem min_sub_cast {i : Nat} (h : i * part ≤ size) :
    ((min part (size - i * part) : Nat) : Int) = min (part : Int) (size - i * part) := by
  push_cast [h]
  rfl

theorem mul_le_of_lt_count {i : Nat} (h : i < countParts size part) : i * part ≤ size := by
  rcases Nat.eq_zero_or_pos size with rfl | hpos
  · have : i = 0 := by
      simp [countParts] at h
      exact h
    simp [this]
  · exact le_of_lt (mul_lt_of_lt_count hpos h)

section
variable (hpart : 0 < part) (hs : size ≤ 5 * 1024 ^ 4)
include hpart hs

theorem go_partCount :
    Go.partCount size part = pure (countParts size part : Int) := by
  unfold Go.partCount
  split
  · case isTrue hsize =>
    have hle : ((size : Int) - 1) / part ≤ size - 1 := Int.ediv_le_self _ (by omega)
    have hnonneg : 0 ≤ ((size : Int) - 1) / part := Int.ediv_nonneg (by omega) (by omega)
    rw [sub_eq (by unfold Fits; omega), pure_bind',
      div_eq (by omega) (by unfold Fits; omega) (by omega), pure_bind',
      add_eq (by unfold Fits; omega)]
    congr 1
    unfold countParts
    push_cast [show 1 ≤ size by omega]
    rfl
  · case isFalse hsize =>
    have hzero : size = 0 := by omega
    subst hzero
    simp [countParts]

theorem python_partCount : Python.partCount size part = countParts size part := by
  unfold Python.partCount
  rcases Nat.eq_zero_or_pos size with rfl | hpos
  · simp [nearest_zero, countParts]
  · have h := ceil_nearest (a := size) (b := part) hpart hpos (by omega)
    rw [ceil_natCast_div hpart] at h
    have hcount : (size + part - 1) / part = countParts size part := by
      unfold countParts
      rw [show size + part - 1 = (size - 1) + part by omega, Nat.add_div_right _ hpart,
        Nat.add_comm]
    rw [hcount] at h
    have hone := one_le_countParts size part
    push_cast
    rw [h]
    omega

theorem go_partSizeFor (hbig : part ≤ 5368709120) (number : Int) :
    Go.partSizeFor number size part = pure (partAt (partSizes size part) number) := by
  unfold Go.partSizeFor
  rw [go_partCount hpart hs]
  rcases partAt_cases size part number with ⟨i, rfl, hlt, hat⟩ | ⟨hout, hat⟩
  · have hle := mul_le_of_lt_count hlt
    have hcount : countParts size part ≤ 5 * 1024 ^ 4 + 1 := by
      have := Nat.div_le_self (size - 1) part
      unfold countParts
      omega
    -- The guard against overflow is never met: the parts before this one lie inside the blob.
    have hlimit : (i : Int) ≤ Lib.Word.maxInt64 / part := by
      apply Int.le_ediv_of_mul_le (by omega)
      have : ((i * part : Nat) : Int) ≤ size := by exact_mod_cast hle
      push_cast at this
      unfold Lib.Word.maxInt64
      omega
    have hoff : (i : Int) + 1 - 1 = i := by omega
    have hmul : (0 : Int) ≤ i * part ∧ (i : Int) * part ≤ size :=
      ⟨by positivity, by exact_mod_cast hle⟩
    rw [if_neg (by omega), pure_bind', if_neg (by omega), sub_eq (by unfold Fits; omega),
      pure_bind', hoff, div_eq (by decide) (by decide) (by omega), pure_bind', if_neg (by omega),
      mul_eq (by unfold Fits; omega), pure_bind', sub_eq (by unfold Fits; omega), pure_bind', hat,
      min_sub_cast hle]
    congr 2
    split <;> omega
  · rw [hat]
    by_cases hone : number < 1
    · rw [if_pos (by omega)]
    · rw [if_neg (by omega), pure_bind', if_pos (by omega)]

theorem python_partSizeFor (number : Int) :
    Python.partSizeFor number size part = partAt (partSizes size part) number := by
  unfold Python.partSizeFor
  rw [python_partCount hpart hs]
  rcases partAt_cases size part number with ⟨i, rfl, hlt, hat⟩ | ⟨hout, hat⟩
  · rw [if_neg (by omega), hat, min_sub_cast (mul_le_of_lt_count hlt),
      show (i : Int) + 1 - 1 = i by omega]
    rfl
  · rw [if_pos hout, hat]
    rfl

end

/-! ### The completion of an upload -/

/-- What the completion looks at in a part. -/
def UploadedPart.shape (p : UploadedPart) : Int × Int := (p.number, p.size)

theorem UploadedPart.shape_def : UploadedPart.shape = fun p => (p.number, p.size) := rfl

/-- The parts from index `i` on. -/
def partsFrom (size part i : Nat) : List (Int × Int) :=
  (List.range' i (countParts size part - i)).map fun j : Nat =>
    ((j : Int) + 1, ((min part (size - j * part) : Nat) : Int))

theorem partsFrom_step {i : Nat} (h : i < countParts size part) :
    partsFrom size part i = ((i : Int) + 1, ((min part (size - i * part) : Nat) : Int)) ::
      partsFrom size part (i + 1) := by
  unfold partsFrom
  rw [show countParts size part - i = (countParts size part - (i + 1)) + 1 by omega,
    List.range'_succ, List.map_cons]

theorem partsFrom_end {i : Nat} (h : i + 0 = countParts size part) :
    partsFrom size part i = [] := by
  unfold partsFrom
  rw [show countParts size part - i = 0 by omega]
  rfl

theorem expectedParts_eq (size part : Nat) :
    expectedParts (partSizes size part) = partsFrom size part 0 := by
  apply List.ext_getElem?
  intro j
  unfold expectedParts partsFrom partSizes
  by_cases hj : j < countParts size part <;> simp [hj]

/-- The expected parts stand in the order of their numbers, each number once. -/
theorem partsFrom_pairwise (size part : Nat) :
    (partsFrom size part 0).Pairwise fun x y => x.1 < y.1 := by
  unfold partsFrom
  rw [List.pairwise_map]
  apply List.Pairwise.imp _ List.pairwise_lt_range'
  intro a b hab
  show (a : Int) + 1 < b + 1
  omega

theorem sorted_perm (listing : List UploadedPart) : (sorted listing).Perm listing :=
  List.perm_insertionSort _ _

theorem sorted_pairwise (listing : List UploadedPart) :
    (sorted listing).Pairwise fun p q => p.number ≤ q.number := by
  have : IsTrans UploadedPart fun p q => p.number ≤ q.number := ⟨fun _ _ _ => le_trans⟩
  have : Std.Total fun p q : UploadedPart => p.number ≤ q.number := ⟨fun _ _ => le_total _ _⟩
  exact List.pairwise_insertionSort _ listing

/-- A listing has the expected parts in some order exactly when it has them in their order once
sorted. -/
theorem sorted_shapes_iff (size part : Nat) (listing : List UploadedPart) :
    (sorted listing).map UploadedPart.shape = partsFrom size part 0 ↔
      (listing.map UploadedPart.shape).Perm (partsFrom size part 0) := by
  have hperm := (sorted_perm listing).map UploadedPart.shape
  constructor
  · intro h
    rw [← h]
    exact hperm.symm
  · intro h
    have hsorted : ((sorted listing).map UploadedPart.shape).Pairwise fun x y => x.1 ≤ y.1 := by
      rw [List.pairwise_map]
      exact sorted_pairwise listing
    have hexpected := (partsFrom_pairwise size part).imp fun hlt => le_of_lt hlt
    have hall := hperm.trans h
    refine List.Perm.eq_of_pairwise ?_ hsorted hexpected hall
    -- Two of the expected parts with one number are one part.
    intro x y hx hy hxy hyx
    have hnodup : ((partsFrom size part 0).map Prod.fst).Nodup := by
      unfold List.Nodup
      rw [List.pairwise_map]
      exact (partsFrom_pairwise size part).imp fun hlt => ne_of_lt hlt
    exact List.inj_on_of_nodup_map hnodup (hall.subset hx) hy (le_antisymm hxy hyx)

/-- What the provider is asked to put together. -/
def UploadedPart.tag (p : UploadedPart) : Int × String := (p.number, p.etag)

/-- The size asked for at an index below the count. -/
theorem partAt_of_lt {i : Nat} (h : i < countParts size part) :
    partAt (partSizes size part) (i + 1) = .ok ((min part (size - i * part) : Nat) : Int) := by
  rcases partAt_cases size part (i + 1) with ⟨j, hj, -, hat⟩ | ⟨hout, -⟩
  · have : j = i := by omega
    rw [hat, this]
  · omega

theorem length_partsFrom (size part : Nat) :
    (partsFrom size part 0).length = countParts size part := by
  simp [partsFrom]

section
variable (hpart : 0 < part) (hs : size ≤ 5 * 1024 ^ 4)
include hpart hs

theorem go_completedParts (hbig : part ≤ 5368709120)
    (parts : List UploadedPart) :
    ∀ i : Nat, i + parts.length = countParts size part → countParts size part ≤ 10000 →
      Go.completedParts size part i parts =
        pure (if parts.map UploadedPart.shape = partsFrom size part i then .ok
          (parts.map UploadedPart.tag) else .error invalidParts) := by
  induction parts with
  | nil =>
    intro i hi _
    rw [partsFrom_end hi]
    rfl
  | cons p rest ih =>
    intro i hi hfew
    rw [List.length_cons] at hi
    have hlt : i < countParts size part := by omega
    have hnext := ih (i + 1) (by omega) hfew
    push_cast at hnext
    unfold Go.completedParts
    rw [add_eq (by unfold Fits; omega), pure_bind', go_partSizeFor hpart hs hbig, pure_bind',
      partAt_of_lt hlt, partsFrom_step hlt, List.map_cons, hnext]
    by_cases hp : p.shape = ((i : Int) + 1, ((min part (size - i * part) : Nat) : Int))
    · have hnumber : p.number = i + 1 := congrArg Prod.fst hp
      have hsize : p.size = ((min part (size - i * part) : Nat) : Int) := congrArg Prod.snd hp
      rw [if_neg (by simp [hnumber, hsize]), pure_bind', hp]
      by_cases hrest : rest.map UploadedPart.shape = partsFrom size part (i + 1)
      · rw [if_pos hrest, if_pos (by rw [hrest])]
        rfl
      · rw [if_neg hrest, if_neg fun h => hrest (List.cons.inj h).2]
        rfl
    · rw [if_pos, if_neg fun h => hp (List.cons.inj h).1]
      by_contra hboth
      rw [not_or, not_not, not_not] at hboth
      exact hp (Prod.ext hboth.2 (Except.ok.inj hboth.1).symm)

theorem python_anyMismatch (parts : List UploadedPart) :
    ∀ i : Nat, i + parts.length = countParts size part →
      Python.anyMismatch size part (i + 1) parts =
        .ok (!decide (parts.map UploadedPart.shape = partsFrom size part i)) := by
  induction parts with
  | nil =>
    intro i hi
    rw [partsFrom_end hi]
    rfl
  | cons p rest ih =>
    intro i hi
    rw [List.length_cons] at hi
    have hlt : i < countParts size part := by omega
    have hnext := ih (i + 1) (by omega)
    push_cast at hnext
    unfold Python.anyMismatch
    rw [python_partSizeFor hpart hs, partAt_of_lt hlt, partsFrom_step hlt, List.map_cons, hnext]
    by_cases hnumber : p.number = i + 1
    · by_cases hsize : p.size = ((min part (size - i * part) : Nat) : Int)
      · have hp : p.shape = ((i : Int) + 1, ((min part (size - i * part) : Nat) : Int)) :=
          Prod.ext hnumber hsize
        rw [if_neg (not_not.mpr hnumber), hp]
        simp only [bind, Except.bind]
        rw [if_neg (not_not.mpr hsize)]
        simp
      · rw [if_neg (not_not.mpr hnumber)]
        simp only [bind, Except.bind]
        rw [if_pos hsize, decide_eq_false fun h => hsize (congrArg Prod.snd (List.cons.inj h).1)]
        rfl
    · rw [if_pos hnumber, decide_eq_false fun h => hnumber (congrArg Prod.fst (List.cons.inj h).1)]
      rfl

theorem go_complete (hbig : part ≤ 5368709120)
    (hfew : countParts size part ≤ 10000) (listing : List UploadedPart) :
    Go.complete listing size part =
      pure (if (sorted listing).map UploadedPart.shape = partsFrom size part 0 then .ok
        ((sorted listing).map UploadedPart.tag)
        else .error invalidParts) := by
  have hlength := (sorted_perm listing).length_eq
  unfold Go.complete
  rw [if_neg (by omega), go_partCount hpart hs, pure_bind']
  by_cases hlen : listing.length = countParts size part
  · rw [if_neg (by omega)]
    exact go_completedParts hpart hs hbig (sorted listing) 0 (by omega) hfew
  · rw [if_pos (by omega), if_neg]
    intro h
    have := congrArg List.length h
    rw [List.length_map, length_partsFrom] at this
    omega

theorem python_complete (listing : List UploadedPart) :
    Python.complete listing size part =
      if (sorted listing).map UploadedPart.shape = partsFrom size part 0 then
        .ok ((sorted listing).map UploadedPart.tag)
      else .error invalidParts := by
  unfold Python.complete
  rw [python_partCount hpart hs]
  by_cases hlen : (sorted listing).length = countParts size part
  · have hany := python_anyMismatch hpart hs (sorted listing) 0 (by omega)
    rw [Nat.cast_zero, zero_add] at hany
    simp only [bind, Except.bind]
    rw [if_neg (by omega), hany]
    by_cases hsame : (sorted listing).map UploadedPart.shape = partsFrom size part 0
    · rw [if_pos hsame]
      simp [hsame]
      rfl
    · rw [if_neg hsame]
      simp [hsame]
      rfl
  · rw [if_pos (by omega), if_neg]
    · rfl
    · intro h
      exact hlen (by rw [← length_partsFrom, ← h, List.length_map])

end

/-- For every size that a record may declare and every part size that may be configured, the two
services choose one part size without overflow or rounding. It cuts the blob into at most ten
thousand parts that cover it: parts of that size and a last one, which is not empty unless the blob
is. Both give every part number the size it has in this cut and refuse the others, and both complete
an upload exactly when the listing has each of these parts once and no other. -/
theorem multipart_geometry (configured size : Int) (hconfigured : AdmissiblePartSize configured)
    (hsize : AdmissibleSize size) :
    ∃ (part : Nat) (sizes : List Nat),
      Go.partSize configured size = ⟨part, true⟩ ∧ Python.partSize configured size = part ∧
      Geometry size.toNat part sizes ∧
      (∀ number, Go.partSizeFor number size part = ⟨partAt sizes number, true⟩ ∧
        Python.partSizeFor number size part = partAt sizes number) ∧
      ∀ listing,
        (Go.complete listing size part).exact = true ∧
        (Go.complete listing size part).value = Python.complete listing size part ∧
        ((Python.complete listing size part).isOk = true ↔
          (listing.map fun p => (p.number, p.size)).Perm (expectedParts sizes)) := by
  obtain ⟨hc5, hc⟩ := hconfigured
  obtain ⟨hs0, hs⟩ := hsize
  obtain ⟨c, rfl⟩ := Int.eq_ofNat_of_zero_le (show 0 ≤ configured by omega)
  obtain ⟨s, rfl⟩ := Int.eq_ofNat_of_zero_le hs0
  have hsNat : s ≤ 5 * 1024 ^ 4 := by omega
  have hpart : 0 < chosenPart c s := chosenPart_pos (by omega)
  have hbig : chosenPart c s ≤ 5368709120 := chosenPart_le (by omega) hsNat
  have hfew : countParts s (chosenPart c s) ≤ 10000 := count_chosenPart c s (by omega)
  refine ⟨chosenPart c s, partSizes s (chosenPart c s), go_partSize hsNat, python_partSize hsNat,
    partSizes_geometry hpart hfew, ?_, ?_⟩
  · intro number
    exact ⟨go_partSizeFor hpart hsNat hbig number, python_partSizeFor hpart hsNat number⟩
  · intro listing
    rw [go_complete hpart hsNat hbig hfew, python_complete hpart hsNat, expectedParts_eq]
    refine ⟨rfl, rfl, ?_⟩
    rw [← UploadedPart.shape_def, ← sorted_shapes_iff]
    split <;> simp_all [Except.isOk, Except.toBool]

theorem multipart_geometry_largest : AdmissiblePartSize 8388608 ∧ AdmissibleSize 5497558138880 ∧
      ∃ part sizes, Go.partSize 8388608 5497558138880 = ⟨(part : Nat), true⟩ ∧
        Geometry 5497558138880 part sizes := by
  have hconfigured : AdmissiblePartSize 8388608 := by
    unfold AdmissiblePartSize
    omega
  have hsize : AdmissibleSize 5497558138880 := by
    unfold AdmissibleSize
    omega
  obtain ⟨part, sizes, hgo, -, hgeometry, -⟩ :=
    multipart_geometry 8388608 5497558138880 hconfigured hsize
  exact ⟨hconfigured, hsize, part, sizes, hgo, hgeometry⟩

end Hf2l.Exchange.Transfers
