import RiAuth.Lib.Pages
import RiAuth.Store.Tx

/-!
# Scans of a bucket

A bucket is read by ranges of record names: forward from the name after a cursor to the end of the
bucket, backward from the name before it to the beginning.

* `scanRange`, `scanDirection`: the range of names, and what is read of it;
* `bucketOf`: the records of a bucket, by key;
* **`scanDirection_eq`**: a scan reads the next page of the bucket.
-/

namespace RiAuth.Store

variable {V : Type}

/-- The names that a scan covers. -/
def scanRange (bucket : Text) (cursor : Option Text) (limit : ℕ) (reverse : Bool) :
    OrdMap.Range Text :=
  let start := bucket ++ ['/']
  let stop := bucket ++ ['0']
  if reverse then ⟨start, cursor.elim stop fun v => start ++ v, limit, true⟩
  else ⟨cursor.elim start fun v => start ++ v ++ ['\x00'], stop, limit, false⟩

/-- A page of a bucket, in either direction. A record that does not open fails the call; here every
record opens. -/
def scanDirection (m : OrdMap Text V) (bucket : Text) (cursor : Option Text) (limit : ℕ)
    (reverse : Bool) : List (Text × V) :=
  let range := scanRange bucket cursor limit reverse
  if range.stop ≤ range.start ∨ limit = 0 then []
  else (m.scan range).map fun e => (e.1.drop (bucket.length + 1), e.2)

/-- A page upwards. -/
def scan (m : OrdMap Text V) (bucket : Text) (after : Option Text) (limit : ℕ) :
    List (Text × V) := scanDirection m bucket after limit false

/-- A page downwards. -/
def scanReverse (m : OrdMap Text V) (bucket : Text) (before : Option Text) (limit : ℕ) :
    List (Text × V) := scanDirection m bucket before limit true

/-! ## Names of a bucket -/

theorem char_between_slash_zero {c : Char} : ¬c < '/' ∧ c < '0' ↔ c = '/' := by
  constructor
  · rintro ⟨h1, h2⟩
    apply Char.ext
    apply UInt32.toNat_inj.mp
    have h1' : ¬c.val.toNat < 47 := h1
    have h2' : c.val.toNat < 48 := h2
    have h3 : '/'.val.toNat = 47 := rfl
    omega
  · rintro rfl
    decide

/-- The names between `bucket/` and `bucket0` are those that start with `bucket/`. -/
theorem between_bucket_iff (b n : Text) :
    b ++ ['/'] ≤ n ∧ n < b ++ ['0'] ↔ ∃ k, n = b ++ '/' :: k := by
  rw [← not_lt]
  induction b generalizing n with
  | nil =>
    cases n with
    | nil => simp
    | cons c k =>
      have hchar := char_between_slash_zero (c := c)
      simp only [List.nil_append, List.cons_lt_cons_iff, List.not_lt_nil, and_false, or_false,
        hchar, List.cons.injEq, exists_and_left, exists_eq', and_true]
  | cons c b ih =>
    cases n with
    | nil => simp
    | cons d n =>
      by_cases hd : d = c
      · subst hd
        simpa [List.cons_lt_cons_iff] using ih n
      · rcases lt_or_gt_of_ne hd with h | h
        · simp [List.cons_lt_cons_iff, hd, h]
        · simp [List.cons_lt_cons_iff, hd, h.not_gt]

/-- The smallest text after `v` is `v` followed by the zero character. -/
theorem append_zero_le_iff (v k : Text) : v ++ ['\x00'] ≤ k ↔ v < k := by
  rw [← not_lt]
  induction v generalizing k with
  | nil =>
    cases k with
    | nil => simp
    | cons c k =>
      have hc : ¬c < '\x00' := fun h => Nat.not_lt_zero _ (show c.val.toNat < 0 from h)
      simp [List.cons_lt_cons_iff, hc]
  | cons c v ih =>
    cases k with
    | nil => simp
    | cons d k =>
      rcases lt_trichotomy c d with h | h | h
      · simp [List.cons_lt_cons_iff, h, h.not_gt, h.ne']
      · subst h
        simpa [List.cons_lt_cons_iff] using ih k
      · simp [List.cons_lt_cons_iff, h, h.not_gt, h.ne']

theorem append_lt_append_left_iff (b x y : Text) : b ++ x < b ++ y ↔ x < y := by
  induction b with
  | nil => rfl
  | cons c b ih => simpa [List.cons_lt_cons_iff] using ih

theorem append_le_append_left_iff (b x y : Text) : b ++ x ≤ b ++ y ↔ x ≤ y := by
  rw [← not_lt, ← not_lt, append_lt_append_left_iff]

theorem recordKey_eq_append (b k : Text) : recordKey b k = (b ++ ['/']) ++ k := by
  rw [recordKey, List.append_assoc, List.singleton_append]

theorem recordKey_lt_iff (b x y : Text) : recordKey b x < recordKey b y ↔ x < y := by
  rw [recordKey_eq_append, recordKey_eq_append, append_lt_append_left_iff]

/-- **A scan covers exactly the keys of the bucket on its side of the cursor.** -/
theorem scanRange_holds (b : Text) (cursor : Option Text) (limit : ℕ) (reverse : Bool) (n : Text) :
    (scanRange b cursor limit reverse).holds n = true ↔
      ∃ k, n = recordKey b k ∧ cursor.all (fun c => OrdMap.before reverse k c) = true := by
  rw [OrdMap.Range.holds_iff]
  have hwhole : b ++ ['/'] ≤ n ∧ n < b ++ ['0'] ↔ ∃ k, n = recordKey b k := between_bucket_iff b n
  cases cursor with
  | none =>
    cases reverse <;> simpa [scanRange] using hwhole
  | some v =>
    cases reverse with
    | false =>
      have hstart : b ++ ['/'] ++ v ++ ['\x00'] = (b ++ ['/']) ++ (v ++ ['\x00']) :=
        List.append_assoc _ _ _
      constructor
      · rintro ⟨hlow, hhigh⟩
        change b ++ ['/'] ++ v ++ ['\x00'] ≤ n at hlow
        -- the cursor lies in the bucket, so the bucket's own bounds hold as well
        have hbucket : b ++ ['/'] ≤ n := by
          refine le_trans ?_ hlow
          rw [hstart, ← List.append_nil (b ++ ['/']), List.append_assoc _ [] _,
            append_le_append_left_iff]
          exact not_lt.mp (List.not_lt_nil _)
        obtain ⟨k, rfl⟩ := hwhole.mp ⟨hbucket, hhigh⟩
        rw [hstart, recordKey_eq_append, append_le_append_left_iff, append_zero_le_iff] at hlow
        exact ⟨k, rfl, OrdMap.before_false.mpr hlow⟩
      · rintro ⟨k, rfl, hk⟩
        refine ⟨?_, (hwhole.mpr ⟨k, rfl⟩).2⟩
        change b ++ ['/'] ++ v ++ ['\x00'] ≤ _
        rw [hstart, recordKey_eq_append, append_le_append_left_iff, append_zero_le_iff]
        exact OrdMap.before_false.mp hk
    | true =>
      have hstop : b ++ ['/'] ++ v < b ++ ['0'] := by
        rw [← recordKey_eq_append]
        exact ((between_bucket_iff b _).mpr ⟨v, rfl⟩).2
      constructor
      · rintro ⟨hlow, hhigh⟩
        obtain ⟨k, rfl⟩ := hwhole.mp ⟨hlow, lt_trans hhigh hstop⟩
        change _ < b ++ ['/'] ++ v at hhigh
        rw [recordKey_eq_append, append_lt_append_left_iff] at hhigh
        exact ⟨k, rfl, OrdMap.before_true.mpr hhigh⟩
      · rintro ⟨k, rfl, hk⟩
        refine ⟨(hwhole.mpr ⟨k, rfl⟩).1, ?_⟩
        change _ < b ++ ['/'] ++ v
        rw [recordKey_eq_append, append_lt_append_left_iff]
        exact OrdMap.before_true.mp hk

/-! ## Pages of a bucket -/

/-- Whether a name belongs to a bucket. -/
def inBucket (bucket name : Text) : Bool := (bucket ++ ['/']).isPrefixOf name

theorem inBucket_iff {bucket name : Text} :
    inBucket bucket name = true ↔ ∃ k, name = recordKey bucket k := by
  rw [inBucket, List.isPrefixOf_iff_prefix]
  constructor
  · rintro ⟨k, rfl⟩
    exact ⟨k, (recordKey_eq_append bucket k).symm⟩
  · rintro ⟨k, rfl⟩
    exact ⟨k, (recordKey_eq_append bucket k).symm⟩

/-- The key in a name of a bucket. -/
def keyOf (bucket name : Text) : Text := name.drop (bucket.length + 1)

@[simp] theorem keyOf_recordKey (bucket k : Text) : keyOf bucket (recordKey bucket k) = k := by
  rw [keyOf, recordKey_eq_append]
  exact List.drop_left' (by rw [List.length_append]; rfl)

/-- The records of a bucket, by key. -/
def bucketOf (m : OrdMap Text V) (bucket : Text) : OrdMap Text V where
  entries := (m.restrict (inBucket bucket)).entries.map fun e => (keyOf bucket e.1, e.2)
  sorted := by
    rw [List.pairwise_map]
    refine List.Pairwise.imp_of_mem ?_ (m.restrict (inBucket bucket)).sorted
    intro a b ha hb hlt
    obtain ⟨x, hx⟩ := inBucket_iff.mp (List.mem_filter.mp ha).2
    obtain ⟨y, hy⟩ := inBucket_iff.mp (List.mem_filter.mp hb).2
    rw [hx, hy, recordKey_lt_iff] at hlt
    rw [hx, hy, keyOf_recordKey, keyOf_recordKey]
    exact hlt

theorem mem_bucketOf {m : OrdMap Text V} {bucket k : Text} {v : V} :
    (k, v) ∈ (bucketOf m bucket).entries ↔ m.get? (recordKey bucket k) = some v := by
  rw [← OrdMap.mem_entries_iff]
  constructor
  · intro h
    obtain ⟨⟨n, w⟩, hmem, heq⟩ := List.mem_map.mp h
    obtain ⟨hmem, hbucket⟩ := List.mem_filter.mp hmem
    obtain ⟨x, hx⟩ := inBucket_iff.mp hbucket
    cases heq
    change n = _ at hx
    subst hx
    rwa [keyOf_recordKey]
  · intro h
    refine List.mem_map.mpr ⟨(recordKey bucket k, v), List.mem_filter.mpr ⟨h, ?_⟩, ?_⟩
    · exact inBucket_iff.mpr ⟨k, rfl⟩
    · rw [keyOf_recordKey]

/-- **A scan reads the next page of the bucket.** -/
theorem scanDirection_eq (m : OrdMap Text V) (bucket : Text) (cursor : Option Text) (limit : ℕ)
    (reverse : Bool) :
    scanDirection m bucket cursor limit reverse =
      (bucketOf m bucket).page reverse limit cursor := by
  have hlimit : (scanRange bucket cursor limit reverse).limit = limit := by
    cases reverse <;> rfl
  have hreverse : (scanRange bucket cursor limit reverse).reverse = reverse := by
    cases reverse <;> rfl
  have hmap : (m.scan (scanRange bucket cursor limit reverse)).map
      (fun e => (keyOf bucket e.1, e.2)) = (bucketOf m bucket).page reverse limit cursor := by
    have hrows : (m.restrict (scanRange bucket cursor limit reverse).holds).entries =
        (m.restrict (inBucket bucket)).entries.filter
          fun e => cursor.all fun c => OrdMap.before reverse (keyOf bucket e.1) c := by
      refine (List.filter_congr fun e _ => ?_).trans List.filter_filter.symm
      rw [Bool.eq_iff_iff, scanRange_holds, Bool.and_eq_true, inBucket_iff]
      constructor
      · rintro ⟨k, hk, hcursor⟩
        rw [hk, keyOf_recordKey]
        exact ⟨hcursor, k, rfl⟩
      · rintro ⟨hcursor, k, hk⟩
        rw [hk, keyOf_recordKey] at hcursor
        exact ⟨k, hk, hcursor⟩
    rw [OrdMap.scan, OrdMap.page, OrdMap.after, hlimit, hreverse, hrows, List.map_take]
    congr 1
    cases reverse with
    | false =>
      change List.map _ (List.filter _ _) = List.filter _ (bucketOf m bucket).entries
      rw [bucketOf, List.filter_map]
      rfl
    | true =>
      change (List.reverse _).map _ = (List.reverse _).filter _
      rw [List.map_reverse, List.filter_reverse, bucketOf, List.filter_map]
      rfl
  unfold scanDirection
  dsimp only
  split
  · rename_i hnone
    rcases hnone with hnone | rfl
    · -- the range is empty, and so is the page
      rw [← hmap]
      have hempty : m.scan (scanRange bucket cursor limit reverse) = [] := by
        unfold OrdMap.scan
        have hrows : (m.restrict (scanRange bucket cursor limit reverse).holds).entries = [] := by
          refine List.filter_eq_nil_iff.mpr fun e _ h => ?_
          have := OrdMap.Range.holds_iff.mp h
          exact absurd (lt_of_le_of_lt this.1 this.2) (not_lt.mpr hnone)
        rw [hrows, List.eq_nil_of_length_eq_zero (OrdMap.length_directed _ []), List.take_nil]
      rw [hempty, List.map_nil]
    · rw [OrdMap.page, List.take_zero]
  · exact hmap

end RiAuth.Store
