import RiAuth.Lib.Checks
import RiAuth.Lib.WasmBinary

/-!
# Admission of guest modules

The module of an extension is looked through before it is run in a process of its own: its sections
one after the other, each only as far as the limits need.

* `admitSections`: the walk over the sections;
* `admitTranslationBudget`: fuel for the translation of the code;
* **`admitted_module_bounded`**: what an admitted module can hold, if it is a module at all.
-/

namespace RiAuth.Workflow.Guest

open Checks Framing Base128 Wasm

/-- Why a stage is not run. -/
inductive Denial where
  | malformed
  | limit
  | permission
  | fuel
  | timeout
  | inputLimit
  | failed
  deriving DecidableEq

def MAX_GUEST_FUNCTIONS : ℕ := 1

def MAX_GUEST_LOCALS : ℕ := 32

def FUEL_PER_SECOND : ℕ := 1000

def GUEST_TRANSLATION_FUEL_PER_BYTE : ℕ := 7

/-! ## The checks -/

/-- A number below `2 ^ 32` in at most five bytes, and what follows it. -/
def readLeb (bytes : Bytes) : Except Denial (ℕ × Bytes) :=
  okOr (readFrom (fun b => 0x0f < b.toNat % 128) 5 0 0 bytes) .malformed

/-- One type: no parameters, one `i32`. -/
def admitType (payload : Bytes) : Except Denial Unit := do
  let (count, rest) ← readLeb payload
  require (count = 1) .limit
  require (rest.head? = some 0x60) .malformed
  let (params, rest) ← readLeb rest.tail
  require (params = 0) .limit
  let (results, rest) ← readLeb rest
  require (results = 1 ∧ rest = [0x7f]) .limit

/-- One function of that type. -/
def admitFunctions (payload : Bytes) : Except Denial Unit := do
  let (count, rest) ← readLeb payload
  require (count = MAX_GUEST_FUNCTIONS) .limit
  let (index, rest) ← readLeb rest
  require (index = 0) .limit
  require (rest = []) .malformed

/-- Two exports. -/
def admitExports (payload : Bytes) : Except Denial Unit := do
  let (count, _) ← readLeb payload
  require (count = 2) .limit

/-- The groups of locals that are still to come, and the locals so far. -/
def admitLocals : ℕ → Bytes → ℕ → Except Denial Unit
  | 0, _, _ => .ok ()
  | groups + 1, rest, locals => do
    let (count, rest) ← readLeb rest
    require (rest ≠ []) .malformed
    require (rest.head? = some 0x7f) .limit
    require (locals + count < 2 ^ 32) .limit
    require (locals + count ≤ MAX_GUEST_LOCALS) .limit
    admitLocals groups rest.tail (locals + count)

/-- One body with few locals; its length. -/
def admitCode (payload : Bytes) : Except Denial ℕ := do
  let (count, rest) ← readLeb payload
  require (count = MAX_GUEST_FUNCTIONS) .limit
  let (bodyLen, body) ← readLeb rest
  require (body.length = bodyLen) .malformed
  let (groups, rest) ← readLeb body
  require (groups ≤ MAX_GUEST_LOCALS) .limit
  admitLocals groups rest 0
  .ok bodyLen

/-- No data segments. -/
def admitData (payload : Bytes) : Except Denial Unit := do
  let (count, rest) ← readLeb payload
  require (count = 0 ∧ rest = []) .limit

/-- One bounded memory. -/
def admitMemory (payload : Bytes) : Except Denial Unit := do
  let (count, rest) ← readLeb payload
  require (count = 1 ∧ rest ≠ []) .limit
  require (rest.head? = some 0x01) .limit
  let (min, rest) ← readLeb rest.tail
  let (max, rest) ← readLeb rest
  require (rest = [] ∧ min = 1 ∧ max = 1) .limit

/-- A section that has to be empty: its count is all that is read. -/
def admitNone (payload : Bytes) (denial : Denial) : Except Denial Unit := do
  let (count, _) ← readLeb payload
  require (count = 0) denial

/-! ## The walk -/

/-- What the walk has seen. -/
structure Walk where
  last : UInt8
  sawType : Bool
  sawFunction : Bool
  sawMemory : Bool
  sawCode : Bool
  bodyLen : Option ℕ

/-- Nothing seen. -/
def Walk.start : Walk := ⟨0, false, false, false, false, none⟩

/-- One section. -/
def Walk.visit (w : Walk) (s : Section) : Except Denial Walk :=
  match s.id with
  | 1 => do
    admitType s.payload
    .ok { w with sawType := true }
  | 2 => do
    admitNone s.payload .permission
    .ok w
  | 3 => do
    admitFunctions s.payload
    .ok { w with sawFunction := true }
  | 4 | 6 | 9 => do
    admitNone s.payload .limit
    .ok w
  | 5 => do
    admitMemory s.payload
    .ok { w with sawMemory := true }
  | 7 => do
    admitExports s.payload
    .ok w
  | 8 => .error .limit
  | 10 => do
    let bodyLen ← admitCode s.payload
    .ok { w with sawCode := true, bodyLen := some bodyLen }
  | 11 => do
    admitData s.payload
    .ok w
  | _ => .ok w

/-- One section. Custom sections may stand anywhere; the others have to come by rising number. -/
def Walk.next (w : Walk) (s : Section) : Except Denial Walk :=
  if s.id = 0 then .ok w
  else if s.id ≤ w.last ∨ 12 < s.id then .error .malformed
  else { w with last := s.id }.visit s

/-- The sections of the bytes that are left. A section takes two bytes at least, so that as many
rounds as there are bytes are enough. -/
def Walk.run : ℕ → Bytes → Walk → Except Denial Walk
  | _, [], w => .ok w
  | 0, _ :: _, _ => .error .malformed
  | rounds + 1, id :: rest, w => do
    let (size, rest) ← readLeb rest
    require (size ≤ rest.length) .malformed
    let w ← w.next ⟨id, rest.take size⟩
    w.run rounds (rest.drop size)

/-- The size of the one code body. -/
def admitSections (wasm : Bytes) : Except Denial ℕ := do
  require (¬ (wasm.length < 8 ∨ wasm.take 4 ≠ [0x00, 0x61, 0x73, 0x6d] ∨
    (wasm.drop 4).take 4 ≠ [1, 0, 0, 0])) .malformed
  let w ← Walk.start.run wasm.length (wasm.drop 8)
  require (w.sawType ∧ w.sawFunction ∧ w.sawMemory ∧ w.sawCode) .limit
  okOr w.bodyLen .limit

/-- Products stop at the largest number of 64 bits. -/
def saturatingMul (a b : ℕ) : ℕ := min (a * b) (2 ^ 64 - 1)

/-- Translation has to fit the fuel and the time. -/
def admitTranslationBudget (fuel timeoutSeconds bodyLen : ℕ) : Except Denial Unit :=
  let timeoutFuel := saturatingMul timeoutSeconds FUEL_PER_SECOND
  let budget := min timeoutFuel fuel
  let charge := saturatingMul bodyLen GUEST_TRANSLATION_FUEL_PER_BYTE
  if budget < charge then
    if timeoutFuel < fuel then .error .timeout else .error .fuel
  else .ok ()

/-! ## What each check shows -/

theorem readLeb_ok {bytes rest : Bytes} {n : ℕ} :
    readLeb bytes = .ok (n, rest) ↔ ∃ pre, bytes = pre ++ rest ∧ U32 pre n := by
  have hrefused : ∀ b : UInt8, b.toNat < 128 →
      (decide (0x0f < b.toNat % 128) = true ↔ 0x0f < b.toNat) := by
    intro b hb
    rw [decide_eq_true_iff, Nat.mod_eq_of_lt hb]
  unfold readLeb
  rw [okOr_ok]
  exact readFrom_zero hrefused

section

variable {α : Type} {E : α → Bytes → Prop} {xs : List α} {payload rest : Bytes} {n : ℕ}

/-- The number at the start of a vector counts its entries. -/
theorem readLeb_vec_append {tail : Bytes} (h : readLeb (payload ++ tail) = .ok (n, rest))
    (hvec : Vec E xs payload) :
    n = xs.length ∧ ∃ entries, rest = entries ++ tail ∧ Entries E xs entries := by
  obtain ⟨pre, hpre, hn⟩ := readLeb_ok.mp h
  obtain ⟨count, entries, rfl, hcount, hentries⟩ := hvec
  rw [List.append_assoc] at hpre
  obtain ⟨rfl, rfl⟩ := hcount.append_inj hn hpre
  exact ⟨rfl, entries, rfl, hentries⟩

theorem readLeb_vec {β : Type} {f : ℕ × Bytes → Except Denial β} {b : β}
    (h : (readLeb payload >>= f) = .ok b) (hvec : Vec E xs payload) :
    ∃ entries, Entries E xs entries ∧ f (xs.length, entries) = .ok b := by
  obtain ⟨⟨n, rest⟩, hread, hrest⟩ := bind_ok.mp h
  rw [← List.append_nil payload] at hread
  obtain ⟨rfl, entries, rfl, hentries⟩ := readLeb_vec_append hread hvec
  rw [List.append_nil] at hrest
  exact ⟨entries, hentries, hrest⟩

theorem admitNone_sound {denial : Denial} (h : admitNone payload denial = .ok ())
    (hvec : Vec E xs payload) : xs = [] := by
  obtain ⟨rest, -, hcount⟩ := readLeb_vec h hvec
  exact List.length_eq_zero_iff.mp (require_ok.mp hcount)

theorem admitData_sound (h : admitData payload = .ok ()) (hvec : Vec E xs payload) : xs = [] := by
  obtain ⟨rest, -, hcount⟩ := readLeb_vec h hvec
  exact List.length_eq_zero_iff.mp (require_ok.mp hcount).1

theorem admitExports_sound (h : admitExports payload = .ok ()) (hvec : Vec E xs payload) :
    xs.length = 2 := by
  obtain ⟨rest, -, hcount⟩ := readLeb_vec h hvec
  exact require_ok.mp hcount

end

theorem admitType_sound {payload : Bytes} {ts : List FuncType} (h : admitType payload = .ok ())
    (hvec : Vec FuncType.Encodes ts payload) : ts = [⟨[], [0x7f]⟩] := by
  obtain ⟨rest, hentries, h₁⟩ := readLeb_vec h hvec
  obtain ⟨hcount, h₂⟩ := seq_ok.mp h₁
  obtain ⟨⟨params, results⟩, rfl, ps, rs, rfl, hps, hrs⟩ :=
    hentries.singleton (require_ok.mp hcount)
  obtain ⟨-, h₃⟩ := seq_ok.mp h₂
  obtain ⟨⟨n, rest⟩, hread, h₄⟩ := bind_ok.mp h₃
  obtain ⟨hparams, h₅⟩ := seq_ok.mp h₄
  obtain ⟨rfl, entries, rfl, hentries⟩ := readLeb_vec_append hread hps
  -- Without parameters the results follow at once.
  obtain rfl : params = [] := List.length_eq_zero_iff.mp (require_ok.mp hparams)
  cases hentries
  obtain ⟨rest, hentries, h₆⟩ := readLeb_vec h₅ hrs
  obtain ⟨hresults, rfl⟩ := require_ok.mp h₆
  obtain ⟨b, rfl, hb⟩ := hentries.singleton hresults
  obtain rfl : (0x7f : UInt8) = b := List.singleton_inj.mp hb
  rfl

theorem admitFunctions_sound {payload : Bytes} {fs : List ℕ} (h : admitFunctions payload = .ok ())
    (hvec : Vec (fun n bytes => U32 bytes n) fs payload) : fs = [0] := by
  obtain ⟨rest, hentries, h₁⟩ := readLeb_vec h hvec
  obtain ⟨hcount, h₂⟩ := seq_ok.mp h₁
  obtain ⟨index, rfl, hindex⟩ := hentries.singleton (require_ok.mp hcount)
  obtain ⟨⟨n, tail⟩, hread, h₃⟩ := bind_ok.mp h₂
  obtain ⟨hn, -⟩ := seq_ok.mp h₃
  obtain ⟨pre, hpre, hu32⟩ := readLeb_ok.mp hread
  rw [← List.append_nil rest] at hpre
  obtain ⟨rfl, -⟩ := hindex.append_inj hu32 hpre
  obtain rfl : index = 0 := require_ok.mp hn
  rfl

theorem admitMemory_sound {payload : Bytes} {ms : List Wasm.Limits}
    (h : admitMemory payload = .ok ()) (hvec : Vec Wasm.Limits.Encodes ms payload) :
    ms = [⟨1, some 1⟩] := by
  obtain ⟨rest, hentries, h₁⟩ := readLeb_vec h hvec
  obtain ⟨hcount, h₂⟩ := seq_ok.mp h₁
  obtain ⟨limits, rfl, hlimits⟩ := hentries.singleton (require_ok.mp hcount).1
  obtain ⟨hflags, h₃⟩ := seq_ok.mp h₂
  cases hlimits with
  | atLeast hmin => exact absurd (require_ok.mp hflags) (by simp)
  | @between bs bs' n m hmin hmax =>
    obtain ⟨⟨min, tail⟩, hread, h₄⟩ := bind_ok.mp h₃
    obtain ⟨pre, hpre, hu32⟩ := readLeb_ok.mp hread
    obtain ⟨rfl, rfl⟩ := hmin.append_inj hu32 hpre
    obtain ⟨⟨max, tail⟩, hread, h₅⟩ := bind_ok.mp h₄
    obtain ⟨pre, hpre, hu32⟩ := readLeb_ok.mp hread
    rw [← List.append_nil bs'] at hpre
    obtain ⟨rfl, -⟩ := hmax.append_inj hu32 hpre
    obtain ⟨-, rfl, rfl⟩ := require_ok.mp h₅
    rfl

/-- Locals that pass are all of one type, and few. -/
theorem admitLocals_sound {ls : List Locals} {entries tail : Bytes}
    (hentries : Entries Locals.Encodes ls entries) {locals : ℕ}
    (hlocals : locals ≤ MAX_GUEST_LOCALS)
    (h : admitLocals ls.length (entries ++ tail) locals = .ok ()) :
    (∀ l ∈ ls, l.type = 0x7f) ∧ locals + (ls.map Locals.count).sum ≤ MAX_GUEST_LOCALS := by
  induction hentries generalizing locals with
  | nil => exact ⟨by simp, hlocals⟩
  | @cons l ls b bs hl hls ih =>
    obtain ⟨count, rfl, hcount⟩ := hl
    rw [List.length_cons, admitLocals] at h
    obtain ⟨⟨n, rest⟩, hread, h₁⟩ := bind_ok.mp h
    obtain ⟨pre, hpre, hn⟩ := readLeb_ok.mp hread
    simp only [List.append_assoc] at hpre
    obtain ⟨rfl, rfl⟩ := hcount.append_inj hn hpre
    obtain ⟨-, h₂⟩ := seq_ok.mp h₁
    obtain ⟨htype, h₃⟩ := seq_ok.mp h₂
    obtain ⟨-, h₄⟩ := seq_ok.mp h₃
    obtain ⟨hle, h₅⟩ := seq_ok.mp h₄
    obtain ⟨htypes, hsum⟩ := ih (require_ok.mp hle) h₅
    have hl : l.type = 0x7f := Option.some.inj (require_ok.mp htype)
    rw [List.map_cons, List.sum_cons, ← Nat.add_assoc]
    exact ⟨List.forall_mem_cons.mpr ⟨hl, htypes⟩, hsum⟩

/-- The one code body of a module, and what it declares. -/
def Bounded (c : Code) (n : ℕ) : Prop :=
  c.body.length = n ∧ (∀ l ∈ c.locals, l.type = 0x7f) ∧
    (c.locals.map Locals.count).sum ≤ MAX_GUEST_LOCALS

theorem admitCode_sound {payload : Bytes} {cs : List Code} {n : ℕ} (h : admitCode payload = .ok n)
    (hvec : Vec Code.Encodes cs payload) : ∃ c, cs = [c] ∧ Bounded c n ∧ n < 2 ^ 32 := by
  obtain ⟨rest, hentries, h₁⟩ := readLeb_vec h hvec
  obtain ⟨hcount, h₂⟩ := seq_ok.mp h₁
  obtain ⟨c, rfl, size, locals, expr, rfl, hsize, hbody, hlocals⟩ :=
    hentries.singleton (require_ok.mp hcount)
  obtain ⟨⟨bodyLen, body⟩, hread, h₃⟩ := bind_ok.mp h₂
  obtain ⟨pre, hpre, hlen⟩ := readLeb_ok.mp hread
  obtain ⟨rfl, rfl⟩ := hsize.append_inj hlen hpre
  obtain ⟨-, h₄⟩ := seq_ok.mp h₃
  obtain ⟨⟨groups, rest⟩, hread, h₅⟩ := bind_ok.mp h₄
  obtain ⟨-, h₆⟩ := seq_ok.mp h₅
  obtain ⟨hadmitted, h₇⟩ := seq_ok.mp h₆
  rw [hbody] at hread
  obtain ⟨rfl, entries, rfl, hentries⟩ := readLeb_vec_append hread hlocals
  obtain ⟨htypes, hsum⟩ := admitLocals_sound hentries (Nat.zero_le _) hadmitted
  rw [Nat.zero_add] at hsum
  obtain rfl := Except.ok.inj h₇
  exact ⟨c, rfl, ⟨rfl, htypes, hsum⟩, hsize.2.2⟩

/-! ## What the walk shows -/

variable {ss : List Section} {w w' : Walk} {s : Section}

/-- Over the sections of a module the walk takes them one by one. -/
theorem Walk.run_eq {bytes : Bytes} (h : Sections ss bytes) {rounds : ℕ}
    (hrounds : ss.length ≤ rounds) (w : Walk) : w.run rounds bytes = ss.foldlM Walk.next w := by
  induction h generalizing rounds w with
  | nil =>
    rw [List.foldlM_nil]
    cases rounds <;> rfl
  | @cons s ss size bytes hsize hss ih =>
    cases rounds with
    | zero => exact absurd hrounds (Nat.not_succ_le_zero _)
    | succ rounds =>
      have hread : readLeb (size ++ (s.payload ++ bytes)) =
          .ok (s.payload.length, s.payload ++ bytes) := readLeb_ok.mpr ⟨size, rfl, hsize⟩
      have hlen : s.payload.length ≤ (s.payload ++ bytes).length := by simp
      have hih := ih (Nat.le_of_succ_le_succ hrounds)
      rw [List.foldlM_cons, Walk.run, hread]
      change (require _ _ >>= fun _ => Walk.next w ⟨s.id, _⟩ >>= _) = _
      rw [require, if_pos hlen, List.take_left, List.drop_left]
      change Walk.next w s >>= _ = _
      exact bind_congr hih

theorem Walk.visit_of_next (h : w.next s = .ok w') (hid : s.id ≠ 0) :
    ∃ v : Walk, v.visit s = .ok w' := by
  unfold Walk.next at h
  rw [if_neg hid] at h
  split_ifs at h
  exact ⟨_, h⟩

/-- What a section passed, by its number. -/
structure Passed (s : Section) : Prop where
  types : s.id = 1 → admitType s.payload = .ok ()
  none : s.id ∈ [2, 4, 6, 9] → ∃ denial, admitNone s.payload denial = .ok ()
  funcs : s.id = 3 → admitFunctions s.payload = .ok ()
  mems : s.id = 5 → admitMemory s.payload = .ok ()
  exports : s.id = 7 → admitExports s.payload = .ok ()
  start : s.id ≠ 8
  data : s.id = 11 → admitData s.payload = .ok ()

theorem Walk.passed_of_visit (h : w.visit s = .ok w') : Passed s := by
  unfold Walk.visit at h
  constructor
  case start =>
    intro hid
    rw [hid] at h
    cases h
  case none =>
    intro hid
    simp only [List.mem_cons, List.not_mem_nil, or_false] at hid
    rcases hid with hid | hid | hid | hid <;> rw [hid] at h <;> exact ⟨_, (seq_ok.mp h).1⟩
  all_goals
    intro hid
    rw [hid] at h
    exact (seq_ok.mp h).1

/-- What was seen was there. -/
structure Walk.Seen (ss : List Section) (w : Walk) : Prop where
  type : w.sawType = true → ∃ s ∈ ss, s.id = 1
  function : w.sawFunction = true → ∃ s ∈ ss, s.id = 3
  memory : w.sawMemory = true → ∃ s ∈ ss, s.id = 5
  code : ∀ n, w.bodyLen = some n → ∃ s ∈ ss, s.id = 10 ∧ admitCode s.payload = .ok n

theorem Walk.Seen.visit (hw : w.Seen ss) (hs : s ∈ ss) (h : w.visit s = .ok w') : w'.Seen ss := by
  unfold Walk.visit at h
  split at h
  case h_1 hid =>
    obtain ⟨-, h⟩ := seq_ok.mp h
    obtain rfl := Except.ok.inj h
    exact { hw with type := fun _ => ⟨s, hs, hid⟩ }
  case h_3 hid =>
    obtain ⟨-, h⟩ := seq_ok.mp h
    obtain rfl := Except.ok.inj h
    exact { hw with function := fun _ => ⟨s, hs, hid⟩ }
  case h_7 hid =>
    obtain ⟨-, h⟩ := seq_ok.mp h
    obtain rfl := Except.ok.inj h
    exact { hw with memory := fun _ => ⟨s, hs, hid⟩ }
  case h_9 => cases h
  case h_10 hid =>
    obtain ⟨bodyLen, hcode, h⟩ := bind_ok.mp h
    obtain rfl := Except.ok.inj h
    refine { hw with code := ?_ }
    intro n hn
    obtain rfl := Option.some.inj hn
    exact ⟨s, hs, hid, hcode⟩
  case h_12 =>
    obtain rfl := Except.ok.inj h
    exact hw
  -- The other sections are not remembered.
  all_goals
    obtain ⟨-, h⟩ := seq_ok.mp h
    obtain rfl := Except.ok.inj h
    exact hw

theorem Walk.Seen.next (hw : w.Seen ss) (hs : s ∈ ss) (h : w.next s = .ok w') : w'.Seen ss := by
  unfold Walk.next at h
  split_ifs at h
  · obtain rfl := Except.ok.inj h
    exact hw
  · have hlast : Walk.Seen ss { w with last := s.id } := { hw with }
    exact hlast.visit hs h

/-- Over an admitted module: every section passed, and the ones that are needed are there. -/
theorem admitSections_sound {rest : Bytes} {n : ℕ} (hss : Sections ss rest)
    (h : admitSections (preamble ++ rest) = .ok n) :
    (∀ s ∈ ss, s.id ≠ 0 → Passed s) ∧ (∃ s ∈ ss, s.id = 1) ∧ (∃ s ∈ ss, s.id = 3) ∧
      (∃ s ∈ ss, s.id = 5) ∧ ∃ s ∈ ss, s.id = 10 ∧ admitCode s.payload = .ok n := by
  obtain ⟨-, h₁⟩ := seq_ok.mp h
  obtain ⟨w, hrun, h₂⟩ := bind_ok.mp h₁
  obtain ⟨hsaw, hbody⟩ := seq_ok.mp h₂
  have hrounds : ss.length ≤ (preamble ++ rest).length := by
    have hle := hss.length_le
    rw [List.length_append]
    omega
  change Walk.run _ rest Walk.start = _ at hrun
  rw [Walk.run_eq hss hrounds] at hrun
  have hstart : Walk.start.Seen ss := ⟨by rintro ⟨⟩, by rintro ⟨⟩, by rintro ⟨⟩, by rintro _ ⟨⟩⟩
  have hseen : w.Seen ss :=
    foldlM_invariant_mem (fun s hs v v' hv hseen => hseen.next hs hv) hrun hstart
  obtain ⟨htype, hfunction, hmemory, -⟩ := require_ok.mp hsaw
  refine ⟨?_, hseen.type htype, hseen.function hfunction, hseen.memory hmemory,
    hseen.code n (okOr_ok.mp hbody)⟩
  intro s hs hid
  obtain ⟨v, v', hnext⟩ := foldlM_ok hrun s hs
  obtain ⟨_, hadmitted⟩ := Walk.visit_of_next hnext hid
  exact Walk.passed_of_visit hadmitted

theorem admitTranslationBudget_ok {fuel timeoutSeconds bodyLen : ℕ} (hlen : bodyLen < 2 ^ 32)
    (h : admitTranslationBudget fuel timeoutSeconds bodyLen = .ok ()) :
    bodyLen * GUEST_TRANSLATION_FUEL_PER_BYTE ≤ min (timeoutSeconds * FUEL_PER_SECOND) fuel := by
  have hcharge : saturatingMul bodyLen GUEST_TRANSLATION_FUEL_PER_BYTE ≤
      min (saturatingMul timeoutSeconds FUEL_PER_SECOND) fuel := by
    by_contra hlt
    simp only [admitTranslationBudget, if_pos (Nat.not_le.mp hlt)] at h
    split_ifs at h
  have hbudget : saturatingMul timeoutSeconds FUEL_PER_SECOND ≤ timeoutSeconds * FUEL_PER_SECOND :=
    min_le_left _ _
  -- A product of this size is not cut.
  have hexact : saturatingMul bodyLen GUEST_TRANSLATION_FUEL_PER_BYTE =
      bodyLen * GUEST_TRANSLATION_FUEL_PER_BYTE := by
    rw [saturatingMul, GUEST_TRANSLATION_FUEL_PER_BYTE]
    omega
  rw [hexact] at hcharge
  exact hcharge.trans (min_le_min_right fuel hbudget)

/-- An admitted module can hold nothing but one function of one type, one page of memory, and no
exports or two; its one code body is of the size that admission tells and declares few locals of one
type. So a run within the budget pays for every byte of code. -/
theorem admitted_module_bounded {X : Type} (entry : UInt8 → X → Bytes → Prop) (m : Module X)
    (wasm : Bytes) (n fuel timeoutSeconds : ℕ) (hm : m.Encodes entry wasm)
    (h : admitSections wasm = .ok n) :
    (m.imports = [] ∧ m.tables = [] ∧ m.globals = [] ∧ m.elems = [] ∧ m.data = [] ∧
      m.start = none) ∧
    m.types = [⟨[], [0x7f]⟩] ∧ m.funcs = [0] ∧ m.mems = [⟨1, some 1⟩] ∧
    (m.exports = [] ∨ m.exports.length = 2) ∧
    ∃ c, m.code = [c] ∧ Bounded c n ∧
      (admitTranslationBudget fuel timeoutSeconds n = .ok () →
        (m.code.map fun c => c.body.length).sum * GUEST_TRANSLATION_FUEL_PER_BYTE ≤
          min (timeoutSeconds * FUEL_PER_SECOND) fuel) := by
  obtain ⟨ss, rest, rfl, hss, hmade⟩ := hm
  obtain ⟨hpassed, ⟨t, ht, htid⟩, ⟨f, hf, hfid⟩, ⟨p, hp, hpid⟩, ⟨k, hk, hkid, hcode⟩⟩ :=
    admitSections_sound hss h
  have hpassedOf {s : Section} (hs : s ∈ ss) {id : UInt8} (hsid : s.id = id) (hid : id ≠ 0) :
      Passed s := hpassed s hs (hsid ▸ hid)
  have hcounted {id : UInt8} (hid : id ∈ [2, 4, 6, 9]) (hne : id ≠ 0) {xs : List X}
      (hlists : Listed ss id (entry id) xs) : xs = [] := by
    refine hlists.eq_nil ?_
    intro s hs hsid hvec
    obtain ⟨denial, hadmitted⟩ := (hpassedOf hs hsid hne).none (hsid ▸ hid)
    exact admitNone_sound hadmitted hvec
  obtain ⟨c, hc, hbounded, hlt⟩ := admitCode_sound hcode (hmade.code.1 k hk hkid)
  refine ⟨⟨hcounted (by decide) (by decide) hmade.imports,
    hcounted (by decide) (by decide) hmade.tables, hcounted (by decide) (by decide) hmade.globals,
    hcounted (by decide) (by decide) hmade.elems, ?_, ?_⟩, ?_, ?_, ?_, ?_, c, hc, hbounded, ?_⟩
  · refine hmade.data.eq_nil ?_
    intro s hs hsid hvec
    exact admitData_sound ((hpassedOf hs hsid (by decide)).data hsid) hvec
  · refine hmade.start.2 ?_
    intro s hs hsid
    exact (hpassedOf hs hsid (by decide)).start hsid
  · exact admitType_sound ((hpassedOf ht htid (by decide)).types htid) (hmade.types.1 t ht htid)
  · exact admitFunctions_sound ((hpassedOf hf hfid (by decide)).funcs hfid)
      (hmade.funcs.1 f hf hfid)
  · exact admitMemory_sound ((hpassedOf hp hpid (by decide)).mems hpid) (hmade.mems.1 p hp hpid)
  · by_cases hthere : ∃ s ∈ ss, s.id = 7
    · obtain ⟨s, hs, hsid⟩ := hthere
      exact .inr (admitExports_sound ((hpassedOf hs hsid (by decide)).exports hsid)
        (hmade.exports.1 s hs hsid))
    · push Not at hthere
      exact .inl (hmade.exports.2 hthere)
  · intro hbudget
    rw [hc, List.map_singleton, List.sum_singleton, hbounded.1]
    exact admitTranslationBudget_ok hlt hbudget

/-- A module that answers with zero, and what it exports. -/
def sampleModule (exports : List Bytes) : Module Bytes where
  types := [⟨[], [0x7f]⟩]
  imports := []
  funcs := [0]
  tables := []
  mems := [⟨1, some 1⟩]
  globals := []
  exports := exports
  start := none
  elems := []
  code := [⟨[], [0, 0x41, 0, 0x0b]⟩]
  data := []

def sampleSections (exports : List Section) : List Section :=
  [⟨1, [1, 0x60, 0, 1, 0x7f]⟩, ⟨3, [1, 0]⟩, ⟨5, [1, 1, 1, 1]⟩] ++ exports ++
    [⟨10, [1, 4, 0, 0x41, 0, 0x0b]⟩]

/-- The entries of the other sections, as they stand in the bytes. -/
def rawEntry (_ : UInt8) (x bytes : Bytes) : Prop := bytes = x

theorem sampleModule_made {exports : List Bytes} (hss : ss = [] ∨ ∃ payload, ss = [⟨7, payload⟩])
    (hlists : Listed (sampleSections ss) 7 (rawEntry 7) exports) :
    (sampleModule exports).Made rawEntry (sampleSections ss) := by
  have hone : U32 [1] 1 := u32_singleton (by decide)
  have htype : Vec FuncType.Encodes [⟨[], [0x7f]⟩] [1, 0x60, 0, 1, 0x7f] :=
    vec_singleton ⟨[0], [1, 0x7f], rfl, vec_nil, vec_singleton rfl⟩
  have hfunc : Vec (fun n bytes => U32 bytes n) [0] [1, 0] :=
    vec_singleton (u32_singleton (by decide))
  have hmem : Vec Wasm.Limits.Encodes [⟨1, some 1⟩] [1, 1, 1, 1] :=
    vec_singleton (.between hone hone)
  have hcode : Vec Code.Encodes [⟨[], [0, 0x41, 0, 0x0b]⟩] [1, 4, 0, 0x41, 0, 0x0b] :=
    vec_singleton ⟨[4], [0], [0x41, 0, 0x0b], rfl, u32_singleton (by decide), rfl, vec_nil⟩
  have hfull : List.Sublist [1, 3, 5, 7, 10] order := by decide
  have hbare : List.Sublist [1, 3, 5, 10] order := by decide
  rcases hss with rfl | ⟨payload, rfl⟩ <;>
    constructor <;>
    first
      | exact hlists
      | simp [Listed, sampleSections, sampleModule, htype, hfunc, hmem, hcode, hfull, hbare]

/-- The bytes of the sample, with its exports. -/
def sampleWasm (ss : List Section) : Bytes :=
  preamble ++ (sampleSections ss).flatMap Section.spell

/-- The memory and the function, each by its name. -/
def sampleExports : List Bytes :=
  [[6, 0x6d, 0x65, 0x6d, 0x6f, 0x72, 0x79, 2, 0], [5, 0x72, 0x6f, 0x75, 0x74, 0x65, 0, 0]]

theorem admitted_module_bounded_sample :
    (sampleModule sampleExports).imports = [] ∧
      (sampleModule sampleExports).exports.length = 2 ∧
      admitSections (sampleWasm [⟨7, 2 :: sampleExports.flatten⟩]) = .ok 4 := by
  have hadmitted : admitSections (sampleWasm [⟨7, 2 :: sampleExports.flatten⟩]) = .ok 4 := by
    decide
  have hentries : Entries (rawEntry 7) sampleExports sampleExports.flatten :=
    .cons rfl (.cons rfl .nil)
  have hvec : Vec (rawEntry 7) sampleExports (2 :: sampleExports.flatten) :=
    hentries.vec (by decide)
  have hmodule : (sampleModule sampleExports).Encodes rawEntry
      (sampleWasm [⟨7, 2 :: sampleExports.flatten⟩]) := by
    refine ⟨_, _, rfl, sections_spell (by decide), sampleModule_made (.inr ⟨_, rfl⟩) ?_⟩
    simp [Listed, sampleSections, hvec]
  obtain ⟨⟨himports, -⟩, -, -, -, hexports, -⟩ :=
    admitted_module_bounded rawEntry _ _ 4 10000 10 hmodule hadmitted
  exact ⟨himports, hexports.resolve_left (by decide), hadmitted⟩

/-- A module without an export section is admitted too: the exports are left to the child. -/
theorem exportless_module_admitted :
    (sampleModule []).Encodes rawEntry (sampleWasm []) ∧
      admitSections (sampleWasm []) = .ok 4 ∧ (sampleModule []).exports.length ≠ 2 := by
  refine ⟨⟨_, _, rfl, sections_spell (by decide), sampleModule_made (.inl rfl) ?_⟩,
    by decide, by decide⟩
  simp [Listed, sampleSections]

end RiAuth.Workflow.Guest
