import RiAuth.Lib.Base128

/-!
# The binary format of WebAssembly modules

As relations between what a module holds and the bytes of the module. Value types are their bytes;
the entries of the sections that no result here looks into are left to a parameter. Numbers need not
be written in the shortest way.

* `Vec`: a count and that many entries;
* `Sections`: the sections, each with the size of its payload;
* `Module.Encodes`: a whole module.
-/

namespace Wasm

open Framing Base128

/-- A number in at most five bytes. -/
def U32 (bs : Bytes) (n : ℕ) : Prop := Spells bs n ∧ bs.length ≤ 5 ∧ n < 2 ^ 32

section

variable {α : Type}

/-- Encoded elements one after another. -/
inductive Entries (E : α → Bytes → Prop) : List α → Bytes → Prop
  | nil : Entries E [] []
  | cons {x : α} {xs : List α} {b bs : Bytes} : E x b → Entries E xs bs →
    Entries E (x :: xs) (b ++ bs)

/-- A count, then as many entries. -/
def Vec (E : α → Bytes → Prop) (xs : List α) (bytes : Bytes) : Prop :=
  ∃ count entries, bytes = count ++ entries ∧ U32 count xs.length ∧ Entries E xs entries

end

/-! ## Entries -/

/-- A single byte. -/
def IsByte (b : UInt8) (bytes : Bytes) : Prop := bytes = [b]

/-- The type of a function. -/
structure FuncType where
  params : List UInt8
  results : List UInt8

/-- The bytes of a function type. -/
def FuncType.Encodes (t : FuncType) (bytes : Bytes) : Prop :=
  ∃ ps rs, bytes = 0x60 :: (ps ++ rs) ∧ Vec IsByte t.params ps ∧ Vec IsByte t.results rs

/-- The size of a memory, in pages. -/
structure Limits where
  min : ℕ
  max : Option ℕ

/-- A flag tells whether there is a maximum. -/
inductive Limits.Encodes : Limits → Bytes → Prop
  | atLeast {bs : Bytes} {n : ℕ} : U32 bs n → Encodes ⟨n, none⟩ (0x00 :: bs)
  | between {bs bs' : Bytes} {n m : ℕ} : U32 bs n → U32 bs' m →
    Encodes ⟨n, some m⟩ (0x01 :: (bs ++ bs'))

/-- A group of locals of one type. -/
structure Locals where
  count : ℕ
  type : UInt8

/-- A count and the type of so many locals. -/
def Locals.Encodes (l : Locals) (bytes : Bytes) : Prop :=
  ∃ count, bytes = count ++ [l.type] ∧ U32 count l.count

/-- The code of a function, with the bytes that it takes after its size. -/
structure Code where
  locals : List Locals
  body : Bytes

/-- The bytes of a function body. -/
def Code.Encodes (c : Code) (bytes : Bytes) : Prop :=
  ∃ size locals expr, bytes = size ++ c.body ∧ U32 size c.body.length ∧
    c.body = locals ++ expr ∧ Vec Locals.Encodes c.locals locals

/-! ## Modules -/

/-- A section, not decoded. -/
structure Section where
  id : UInt8
  payload : Bytes

/-- Sections one after another, each with its size. -/
inductive Sections : List Section → Bytes → Prop
  | nil : Sections [] []
  | cons {s : Section} {ss : List Section} {size bytes : Bytes} : U32 size s.payload.length →
    Sections ss bytes → Sections (s :: ss) (s.id :: (size ++ (s.payload ++ bytes)))

/-- The order of the sections that are not custom sections, each of which is there at most once. -/
def order : List UInt8 := [1, 2, 3, 4, 5, 6, 7, 8, 9, 12, 10, 11]

/-- What a module holds, by its sections. Functions are the indices of their types. -/
structure Module (X : Type) where
  types : List FuncType
  imports : List X
  funcs : List ℕ
  tables : List X
  mems : List Limits
  globals : List X
  exports : List X
  start : Option ℕ
  elems : List X
  code : List Code
  data : List X

/-- The section lists these entries; without the section there are none. -/
def Listed {α : Type} (ss : List Section) (id : UInt8) (E : α → Bytes → Prop) (xs : List α) : Prop :=
  (∀ s ∈ ss, s.id = id → Vec E xs s.payload) ∧ ((∀ s ∈ ss, s.id ≠ id) → xs = [])

/-- Magic number and version. -/
def preamble : Bytes := [0x00, 0x61, 0x73, 0x6d, 1, 0, 0, 0]

/-- The sections make up the module. -/
structure Module.Made {X : Type} (entry : UInt8 → X → Bytes → Prop) (m : Module X)
    (ss : List Section) : Prop where
  sorted : ((ss.map Section.id).filter (· ≠ 0)).Sublist order
  types : Listed ss 1 FuncType.Encodes m.types
  imports : Listed ss 2 (entry 2) m.imports
  funcs : Listed ss 3 (fun n bytes => U32 bytes n) m.funcs
  tables : Listed ss 4 (entry 4) m.tables
  mems : Listed ss 5 Limits.Encodes m.mems
  globals : Listed ss 6 (entry 6) m.globals
  exports : Listed ss 7 (entry 7) m.exports
  start : (∀ s ∈ ss, s.id = 8 → ∃ n, m.start = some n ∧ U32 s.payload n) ∧
    ((∀ s ∈ ss, s.id ≠ 8) → m.start = none)
  elems : Listed ss 9 (entry 9) m.elems
  code : Listed ss 10 Code.Encodes m.code
  data : Listed ss 11 (entry 11) m.data

/-- The bytes of a whole module. -/
def Module.Encodes {X : Type} (entry : UInt8 → X → Bytes → Prop) (m : Module X)
    (bytes : Bytes) : Prop :=
  ∃ ss rest, bytes = preamble ++ rest ∧ Sections ss rest ∧ m.Made entry ss

/-! ## Reading back -/

theorem U32.append_inj {bs bs' rest rest' : Bytes} {n n' : ℕ} (h : U32 bs n) (h' : U32 bs' n')
    (heq : bs ++ rest = bs' ++ rest') : n = n' ∧ rest = rest' := by
  obtain ⟨-, hn, hrest⟩ := h.1.append_inj h'.1 heq
  exact ⟨hn, hrest⟩

theorem Entries.singleton {α : Type} {E : α → Bytes → Prop} {xs : List α} {bytes : Bytes}
    (h : Entries E xs bytes) (hlen : xs.length = 1) : ∃ x, xs = [x] ∧ E x bytes := by
  obtain ⟨x, rfl⟩ := List.length_eq_one_iff.mp hlen
  cases h with
  | cons hx hnil =>
    cases hnil
    rw [List.append_nil]
    exact ⟨x, rfl, hx⟩

variable {ss : List Section}

theorem Sections.length_le {bytes : Bytes} (h : Sections ss bytes) : ss.length ≤ bytes.length := by
  induction h with
  | nil => exact le_rfl
  | cons _ _ ih =>
    simp only [List.length_cons, List.length_append]
    omega

/-- A section that may only list nothing leaves nothing, whether it is there or not. -/
theorem Listed.eq_nil {α : Type} {id : UInt8} {E : α → Bytes → Prop} {xs : List α}
    (h : Listed ss id E xs) (hempty : ∀ s ∈ ss, s.id = id → Vec E xs s.payload → xs = []) :
    xs = [] := by
  by_cases hthere : ∃ s ∈ ss, s.id = id
  · obtain ⟨s, hs, hid⟩ := hthere
    exact hempty s hs hid (h.1 s hs hid)
  · push Not at hthere
    exact h.2 hthere

/-! ## Short encodings -/

theorem u32_singleton {n : ℕ} (h : n < 128) : U32 [UInt8.ofNat n] n :=
  ⟨spells_singleton h, by simp, by omega⟩

section

variable {α : Type} {E : α → Bytes → Prop}

theorem Entries.vec {xs : List α} {bs : Bytes} (h : Entries E xs bs) (hlen : xs.length < 128) :
    Vec E xs (UInt8.ofNat xs.length :: bs) :=
  ⟨[UInt8.ofNat xs.length], bs, rfl, u32_singleton hlen, h⟩

theorem vec_nil : Vec E [] [0] := Entries.nil.vec (by simp)

theorem vec_singleton {x : α} {bs : Bytes} (h : E x bs) : Vec E [x] (1 :: bs) := by
  have hentries := Entries.cons h .nil
  rw [List.append_nil] at hentries
  exact hentries.vec (by simp)

end

/-- Sections whose sizes take a byte each. -/
def Section.spell (s : Section) : Bytes := s.id :: UInt8.ofNat s.payload.length :: s.payload

theorem sections_spell (h : ∀ s ∈ ss, s.payload.length < 128) :
    Sections ss (ss.flatMap Section.spell) := by
  induction ss with
  | nil => exact .nil
  | cons s ss ih =>
    obtain ⟨hs, hss⟩ := List.forall_mem_cons.mp h
    exact .cons (u32_singleton hs) (ih hss)

end Wasm
