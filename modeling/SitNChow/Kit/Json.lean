/-
JSON texts, as bytes: the grammar, a scanner that finds where a text
ends, and that an object, an array or a string has no complete value in
a proper prefix.

# The grammar

`Text` is the grammar of RFC 8259 taken loosely, so that a lenient
reader's language is inside it: blanks are the bytes 1 to 32, a string
holds any byte but NUL, an escape is a backslash before any byte, and a
number is any run of number characters.

# The scanner

`Scan` counts brackets and knows whether it is in a string. Inside a
container it never falls below the depth it started at (`Level`), and in
a string it stays there until the closing quote, so it is back at the
start at the end of the text and nowhere before (`Enclosed.finished`,
`Enclosed.unfinished`).

# Parsers

A parser is `Prefixed` when what it accepts begins with a complete value
and when it does not look behind an enclosed one. It refuses an enclosed
value that is cut short (`Prefixed.cut`).
-/
import Mathlib.Data.List.Infix
import Mathlib.Tactic.Common

namespace Kit.Json

universe u

-- ========================================================== the grammar

abbrev quote : UInt8 := 34
abbrev backslash : UInt8 := 92
abbrev comma : UInt8 := 44
abbrev colon : UInt8 := 58

/-- White space. -/
def blank (b : UInt8) : Bool := b != 0 && decide (b ≤ 32)

/-- A run of white space. -/
def Blank (w : List UInt8) : Prop := ∀ b ∈ w, blank b = true

/-- An opening bracket. -/
def opening (b : UInt8) : Bool := b == 91 || b == 123

/-- A closing bracket. -/
def closing (b : UInt8) : Bool := b == 93 || b == 125

/-- The characters of a string. -/
inductive Chars : List UInt8 → Prop
  | nil : Chars []
  | char {b : UInt8} {s : List UInt8} :
      b ≠ quote → b ≠ backslash → b ≠ 0 → Chars s → Chars (b :: s)
  | escape {b : UInt8} {s : List UInt8} :
      b ≠ 0 → Chars s → Chars (backslash :: b :: s)

/-- Digits, signs, point and exponent. -/
def numeric (b : UInt8) : Bool :=
  (decide (48 ≤ b) && decide (b ≤ 57)) || b == 43 || b == 45 || b == 46
    || b == 69 || b == 101

/-- `null`, `true` and `false`. -/
def literals : List (List UInt8) :=
  [[110, 117, 108, 108], [116, 114, 117, 101], [102, 97, 108, 115, 101]]

/-- What a text can be. -/
inductive Kind where
  | value
  | padded
  | items
  | member
  | members

/-- The texts of each kind. -/
inductive Text : Kind → List UInt8 → Prop
  | literal {v : List UInt8} : v ∈ literals → Text .value v
  | number {v : List UInt8} :
      v ≠ [] → (∀ b ∈ v, numeric b = true) → Text .value v
  | string {s : List UInt8} : Chars s → Text .value (quote :: s ++ [quote])
  | emptyArray {w : List UInt8} : Blank w → Text .value (91 :: w ++ [93])
  | array {x : List UInt8} : Text .items x → Text .value (91 :: x ++ [93])
  | emptyObject {w : List UInt8} : Blank w → Text .value (123 :: w ++ [125])
  | object {x : List UInt8} : Text .members x → Text .value (123 :: x ++ [125])
  | padded {w v w' : List UInt8} :
      Blank w → Text .value v → Blank w' → Text .padded (w ++ v ++ w')
  | lastItem {x : List UInt8} : Text .padded x → Text .items x
  | item {x y : List UInt8} :
      Text .padded x → Text .items y → Text .items (x ++ comma :: y)
  | member {w s w' x : List UInt8} :
      Blank w → Chars s → Blank w' → Text .padded x →
      Text .member (w ++ (quote :: s ++ [quote]) ++ w' ++ colon :: x)
  | lastMember {x : List UInt8} : Text .member x → Text .members x
  | moreMembers {x y : List UInt8} :
      Text .member x → Text .members y → Text .members (x ++ comma :: y)

/-- An object, an array or a string. -/
structure Enclosed (v : List UInt8) : Prop where
  text : Text .value v
  head : ∃ b x, v = b :: x ∧ (b = quote ∨ opening b = true)

-- ========================================================== the scanner

/-- Outside a string, in one, or behind a backslash in one. -/
inductive Mode where
  | plain
  | string
  | escape
deriving DecidableEq

/-- The scanner: open brackets, and where it is. -/
structure Scan where
  depth : Nat
  mode : Mode
deriving DecidableEq

/-- One byte. -/
def Scan.step (s : Scan) (b : UInt8) : Scan :=
  match s.mode with
  | .plain =>
      if b = quote then { s with mode := .string }
      else if opening b then { s with depth := s.depth + 1 }
      else if closing b then { s with depth := s.depth - 1 }
      else s
  | .string =>
      if b = quote then { s with mode := .plain }
      else if b = backslash then { s with mode := .escape }
      else s
  | .escape => { s with mode := .string }

/-- A list of bytes. -/
def Scan.scan (s : Scan) (x : List UInt8) : Scan := x.foldl Scan.step s

/-- The scanner meets a condition all along. -/
def Scan.All (P : Scan → Prop) : Scan → List UInt8 → Prop
  | s, [] => P s
  | s, b :: x => P s ∧ (s.step b).All P x

variable {P Q : Scan → Prop} {s : Scan} {d : Nat} {b o c : UInt8}
  {x y p q v w : List UInt8}

/-- The scanner goes on where it has stopped. -/
theorem Scan.scan_append : s.scan (x ++ y) = (s.scan x).scan y :=
  List.foldl_append

/-- A condition holds all along two texts if it does along each. -/
theorem Scan.All.append (hx : s.All P x) (hy : (s.scan x).All P y) :
    s.All P (x ++ y) := by
  induction x generalizing s with
  | nil => exact hy
  | cons b x ih => exact ⟨hx.1, ih hx.2 hy⟩

/-- A weaker condition holds as well. -/
theorem Scan.All.mono (hPQ : ∀ s, P s → Q s) (h : s.All P x) : s.All Q x := by
  induction x generalizing s with
  | nil => exact hPQ s h
  | cons b x ih => exact ⟨hPQ s h.1, ih h.2⟩

/-- The condition holds behind every prefix. -/
theorem Scan.All.of_append (h : s.All P (p ++ q)) : P (s.scan p) := by
  induction p generalizing s with
  | nil =>
      cases q with
      | nil => exact h
      | cons b q => exact h.1
  | cons b p ih => exact ih h.2

/-- Outside every string, at a depth. -/
abbrev outside (d : Nat) : Scan := ⟨d, .plain⟩

/-- In a string, at a depth. -/
abbrev within (d : Nat) : Scan := ⟨d, .string⟩

-- ================================================= inside of a container

/-- Scanned at any depth, the text never falls below it and ends there. -/
def Level (x : List UInt8) : Prop :=
  ∀ d, (outside d).scan x = outside d ∧ (outside d).All (d ≤ ·.depth) x

/-- Two level texts in a row are level. -/
theorem Level.append (hx : Level x) (hy : Level y) : Level (x ++ y) := by
  intro d
  obtain ⟨hscan, hall⟩ := hx d
  refine ⟨?_, hall.append ?_⟩
  · rw [Scan.scan_append, hscan, (hy d).1]
  · rw [hscan]
    exact (hy d).2

/-- Neither a quote nor a bracket. -/
def inert (b : UInt8) : Bool := b != quote && !opening b && !closing b

/-- A byte without meaning outside a string changes nothing there. -/
theorem step_inert (h : inert b = true) : (outside d).step b = outside d := by
  simp only [inert, Bool.and_eq_true, bne_iff_ne, Bool.not_eq_true'] at h
  simp [Scan.step, h.1.1, h.1.2, h.2]

/-- A text of such bytes is level. -/
theorem level_inert (h : ∀ b ∈ x, inert b = true) : Level x := by
  intro d
  induction x with
  | nil => exact ⟨rfl, Nat.le_refl d⟩
  | cons b x ih =>
      obtain ⟨hb, hx⟩ := List.forall_mem_cons.mp h
      obtain ⟨hscan, hall⟩ := ih hx
      refine ⟨?_, Nat.le_refl d, ?_⟩
      · show ((outside d).step b).scan x = _
        rw [step_inert hb, hscan]
      · rw [step_inert hb]
        exact hall

/-- An opening bracket leads a level deeper. -/
theorem step_opening (h : opening o = true) :
    (outside d).step o = outside (d + 1) := by
  have hquote : o ≠ quote := by
    rintro rfl
    cases h
  simp [Scan.step, hquote, h]

/-- A closing bracket leads back. -/
theorem step_closing (h : closing c = true) :
    (outside (d + 1)).step c = outside d := by
  have hquote : c ≠ quote := by
    rintro rfl
    cases h
  have hopen : opening c = false := by
    simp only [closing, Bool.or_eq_true, beq_iff_eq] at h
    rcases h with rfl | rfl <;> rfl
  simp [Scan.step, hquote, hopen, h]

/-- Between its brackets a container is one level up. -/
theorem Level.brackets (ho : opening o = true) (hx : Level x)
    (hc : closing c = true) :
    (outside d).scan (o :: x ++ [c]) = outside d
      ∧ (outside (d + 1)).All (d + 1 ≤ ·.depth) x := by
  obtain ⟨hscan, hall⟩ := hx (d + 1)
  refine ⟨?_, hall⟩
  show ((outside d).step o).scan (x ++ [c]) = _
  rw [step_opening ho, Scan.scan_append, hscan]
  exact step_closing hc

/-- A level text in brackets is level. -/
theorem Level.enclose (ho : opening o = true) (hx : Level x)
    (hc : closing c = true) : Level (o :: x ++ [c]) := by
  intro d
  obtain ⟨hscan, hall⟩ := hx.brackets (d := d) ho hc
  refine ⟨hscan, Nat.le_refl d, ?_⟩
  show ((outside d).step o).All _ (x ++ [c])
  rw [step_opening ho]
  refine (hall.mono fun s hs => Nat.le_of_succ_le hs).append ?_
  rw [(hx (d + 1)).1]
  exact ⟨Nat.le_succ d, by rw [step_closing hc]; exact Nat.le_refl d⟩

/-- In a string, at the depth it started at. -/
def Scan.InString (d : Nat) (s : Scan) : Prop := s.depth = d ∧ s.mode ≠ .plain

/-- The characters of a string keep the scanner in the string. -/
theorem Chars.scan (h : Chars x) :
    (within d).scan x = within d ∧ (within d).All (Scan.InString d) x := by
  have hin : (within d).InString d :=
    ⟨rfl, show Mode.string ≠ Mode.plain by decide⟩
  induction h with
  | nil => exact ⟨rfl, hin⟩
  | @char b s hquote hback _ _ ih =>
      have hstep : (within d).step b = within d := by
        simp [Scan.step, hquote, hback]
      refine ⟨?_, hin, ?_⟩
      · show ((within d).step b).scan s = _
        rw [hstep, ih.1]
      · rw [hstep]
        exact ih.2
  | escape _ _ ih =>
      exact ⟨ih.1, hin, ⟨rfl, show Mode.escape ≠ Mode.plain by decide⟩, ih.2⟩

/-- A string is level. -/
theorem Chars.level (h : Chars x) : Level (quote :: x ++ [quote]) := by
  intro d
  obtain ⟨hscan, hall⟩ := h.scan (d := d)
  refine ⟨?_, Nat.le_refl d, ?_⟩
  · show (within d).scan (x ++ [quote]) = _
    rw [Scan.scan_append, hscan]
    rfl
  · show (within d).All _ (x ++ [quote])
    refine (hall.mono fun s hs => Nat.le_of_eq hs.1.symm).append ?_
    rw [hscan]
    exact ⟨Nat.le_refl d, Nat.le_refl d⟩

-- ================================================ texts that are complete

/-- A class of bytes without the quote and the brackets. -/
theorem inert_of (f : UInt8 → Bool)
    (hf : [quote, 91, 123, 93, 125].all (fun b => !f b) = true)
    (h : f b = true) : inert b = true := by
  by_contra hb
  have hmem : b ∈ [quote, 91, 123, 93, 125] := by
    simp only [inert, opening, closing, Bool.and_eq_true, Bool.not_eq_true',
      bne_iff_ne, Bool.or_eq_false_iff, beq_eq_false_iff_ne] at hb
    simp only [List.mem_cons, List.not_mem_nil, or_false]
    by_contra hno
    simp only [not_or] at hno
    exact hb ⟨⟨hno.1, hno.2.1, hno.2.2.1⟩, hno.2.2.2.1, hno.2.2.2.2⟩
  have hno := List.all_eq_true.mp hf b hmem
  rw [h] at hno
  cases hno

/-- Blanks are level. -/
theorem Blank.level (h : Blank w) : Level w :=
  level_inert fun b hb => inert_of blank rfl (h b hb)

/-- Level texts with a comma between them are level. -/
theorem level_comma (hx : Level x) (hy : Level y) : Level (x ++ comma :: y) :=
  hx.append ((level_inert (List.forall_mem_singleton.mpr rfl)).append hy)

/-- What is checked on the bytes of the literals. -/
theorem literals_all (f : UInt8 → Bool)
    (hf : literals.all (fun v => v.all f) = true) (hv : v ∈ literals) :
    ∀ b ∈ v, f b = true :=
  List.all_eq_true.mp (List.all_eq_true.mp hf v hv)

/-- Every text is level: one case for each of its forms. -/
theorem Text.level {k : Kind} (h : Text k x) : Level x := by
  induction h with
  | literal hv => exact level_inert (literals_all inert rfl hv)
  | number _ hv => exact level_inert fun b hb => inert_of numeric rfl (hv b hb)
  | string hs => exact hs.level
  | emptyArray hw => exact hw.level.enclose rfl rfl
  | emptyObject hw => exact hw.level.enclose rfl rfl
  | array _ ih => exact ih.enclose rfl rfl
  | object _ ih => exact ih.enclose rfl rfl
  | padded hw _ hw' ih => exact (hw.level.append ih).append hw'.level
  | lastItem _ ih => exact ih
  | lastMember _ ih => exact ih
  | item _ _ ihx ihy => exact level_comma ihx ihy
  | moreMembers _ _ ihx ihy => exact level_comma ihx ihy
  | member hw hs hw' _ ih =>
      refine ((hw.level.append hs.level).append hw'.level).append ?_
      exact (level_inert (List.forall_mem_singleton.mpr rfl)).append ih

/-- An enclosed text is a string, or a level text in brackets. -/
theorem Enclosed.shape (h : Enclosed v) :
    (∃ s, Chars s ∧ v = quote :: s ++ [quote])
      ∨ ∃ o x c, opening o = true ∧ Level x ∧ closing c = true
        ∧ v = o :: x ++ [c] := by
  obtain ⟨htext, b, y, hv, hb⟩ := h
  have hno : ∀ f : UInt8 → Bool, f quote = false → f 91 = false → f 123 = false →
      f b = false := by
    intro f h₁ h₂ h₃
    rcases hb with rfl | hb
    · exact h₁
    · simp only [opening, Bool.or_eq_true, beq_iff_eq] at hb
      rcases hb with rfl | rfl
      · exact h₂
      · exact h₃
  cases htext with
  | literal hmem =>
      -- no literal begins with a quote or a bracket
      have hin := literals_all inert rfl hmem b (by rw [hv]; exact List.mem_cons_self)
      cases (hno inert rfl rfl rfl).symm.trans hin
  | number _ hall =>
      have hin := hall b (by rw [hv]; exact List.mem_cons_self)
      cases (hno numeric rfl rfl rfl).symm.trans hin
  | string hs => exact .inl ⟨_, hs, rfl⟩
  | emptyArray hw => exact .inr ⟨_, _, _, rfl, hw.level, rfl, rfl⟩
  | emptyObject hw => exact .inr ⟨_, _, _, rfl, hw.level, rfl, rfl⟩
  | array hx => exact .inr ⟨_, _, _, rfl, hx.level, rfl, rfl⟩
  | object hx => exact .inr ⟨_, _, _, rfl, hx.level, rfl, rfl⟩

/-- At the end of an enclosed text the scanner is where it started. -/
theorem Enclosed.finished (h : Enclosed v) :
    (outside 0).scan v = outside 0 :=
  (h.text.level 0).1

/-- Behind a proper part of an enclosed text it is not. -/
theorem Enclosed.unfinished (h : Enclosed v) (hv : v = p ++ q) (hp : p ≠ [])
    (hq : q ≠ []) : (outside 0).scan p ≠ outside 0 := by
  obtain ⟨b, p, rfl⟩ := List.exists_cons_of_ne_nil hp
  obtain ⟨q, c', rfl⟩ := (List.eq_nil_or_concat q).resolve_left hq
  intro hend
  rcases h.shape with ⟨s, hs, hshape⟩ | ⟨o, x, c, ho, hx, hc, hshape⟩
  · -- still in the string
    rw [hv, List.concat_eq_append, ← List.append_assoc] at hshape
    obtain ⟨heq, -⟩ := List.append_inj' hshape rfl
    injection heq with hb hs'
    subst hb
    have hin := (hs.scan (d := 0)).2
    rw [← hs'] at hin
    have hend : (within 0).scan p = outside 0 := hend
    exact hin.of_append.2 (congrArg Scan.mode hend)
  · -- still between the brackets
    rw [hv, List.concat_eq_append, ← List.append_assoc] at hshape
    obtain ⟨heq, -⟩ := List.append_inj' hshape rfl
    injection heq with hb hx'
    subst hb
    have hin := (hx.brackets (d := 0) ho hc).2
    rw [← hx'] at hin
    have hend : ((outside 0).step b).scan p = outside 0 := hend
    rw [step_opening ho] at hend
    have hdepth := hin.of_append
    rw [hend] at hdepth
    exact absurd hdepth (Nat.not_succ_le_zero 0)

/-- No enclosed text begins another. -/
theorem Enclosed.eq_of_append (hp : Enclosed p) (h : Enclosed (p ++ q)) :
    q = [] := by
  by_contra hq
  have hne : p ≠ [] := by
    obtain ⟨b, x, rfl, -⟩ := hp.head
    exact List.cons_ne_nil b x
  exact h.unfinished rfl hne hq hp.finished

-- ============================================================== parsers

/-- The UTF-8 byte order mark. -/
def bom : List UInt8 := [0xEF, 0xBB, 0xBF]

/-- What may stand before a value. -/
def Lead (w : List UInt8) : Prop := Blank w ∨ ∃ w', w = bom ++ w' ∧ Blank w'

/-- A parser of a text that begins with a complete value: it accepts
nothing else, and does not look behind an enclosed value. -/
structure Prefixed {β : Type u} (parse : List UInt8 → Option β) : Prop where
  accepted : ∀ t value, (∀ b ∈ t, b ≠ 0) → parse t = some value →
    ∃ lead v rest, t = lead ++ v ++ rest ∧ Lead lead ∧ Text .value v
  anything : ∀ w v rest, Blank w → Enclosed v →
    parse (w ++ v ++ rest) = parse (w ++ v)

/-- A value begins with a byte that is no blank. -/
theorem Text.head (h : Text .value v) : ∃ b x, v = b :: x ∧ blank b = false := by
  cases h with
  | literal hmem =>
      simp only [literals, List.mem_cons, List.not_mem_nil, or_false] at hmem
      rcases hmem with rfl | rfl | rfl
      all_goals exact ⟨_, _, rfl, rfl⟩
  | number hne hall =>
      obtain ⟨b, x, rfl⟩ := List.exists_cons_of_ne_nil hne
      refine ⟨b, x, rfl, ?_⟩
      have hnum := hall b List.mem_cons_self
      by_contra hblank
      rw [Bool.not_eq_false] at hblank
      simp only [blank, numeric, Bool.and_eq_true, bne_iff_ne, Bool.or_eq_true,
        decide_eq_true_eq, beq_iff_eq] at hblank hnum
      have hle := UInt8.le_iff_toNat_le.mp hblank.2
      rcases hnum with ((((hnum | rfl) | rfl) | rfl) | rfl) | rfl
      · have hge := UInt8.le_iff_toNat_le.mp hnum.1
        exact absurd (hge.trans hle) (by decide)
      all_goals exact absurd hle (by decide)
  | string _ => exact ⟨_, _, rfl, rfl⟩
  | emptyArray _ => exact ⟨_, _, rfl, rfl⟩
  | array _ => exact ⟨_, _, rfl, rfl⟩
  | emptyObject _ => exact ⟨_, _, rfl, rfl⟩
  | object _ => exact ⟨_, _, rfl, rfl⟩

/-- Texts hold no NUL. -/
theorem Blank.ne_nul (h : Blank w) : ∀ b ∈ w, b ≠ 0 := by
  rintro b hb rfl
  cases h 0 hb

/-- There is no NUL in a string. -/
theorem Chars.ne_nul (h : Chars x) : ∀ b ∈ x, b ≠ 0 := by
  induction h with
  | nil => exact List.forall_mem_nil _
  | char _ _ hb _ ih => exact List.forall_mem_cons.mpr ⟨hb, ih⟩
  | escape hb _ ih =>
      exact List.forall_mem_cons.mpr
        ⟨by decide, List.forall_mem_cons.mpr ⟨hb, ih⟩⟩

/-- There is no NUL in a text. -/
theorem Text.ne_nul {k : Kind} (h : Text k x) : ∀ b ∈ x, b ≠ 0 := by
  have hjoin : ∀ {x y : List UInt8}, (∀ b ∈ x, b ≠ 0) → (∀ b ∈ y, b ≠ 0) →
      ∀ b ∈ x ++ y, b ≠ 0 := fun hx hy =>
    List.forall_mem_append.mpr ⟨hx, hy⟩
  have hquote : ∀ b ∈ [quote], b ≠ 0 :=
    List.forall_mem_singleton.mpr (by decide)
  induction h with
  | literal hmem =>
      have hall := literals_all (fun b => b != 0) rfl hmem
      exact fun b hb => bne_iff_ne.mp (hall b hb)
  | number _ hall =>
      rintro b hb rfl
      cases hall 0 hb
  | string hs =>
      exact hjoin (List.forall_mem_cons.mpr ⟨by decide, hs.ne_nul⟩) hquote
  | emptyArray hw | emptyObject hw =>
      exact hjoin (List.forall_mem_cons.mpr ⟨by decide, hw.ne_nul⟩)
        (List.forall_mem_singleton.mpr (by decide))
  | array _ ih | object _ ih =>
      exact hjoin (List.forall_mem_cons.mpr ⟨by decide, ih⟩)
        (List.forall_mem_singleton.mpr (by decide))
  | padded hw _ hw' ih => exact hjoin (hjoin hw.ne_nul ih) hw'.ne_nul
  | lastItem _ ih | lastMember _ ih => exact ih
  | item _ _ ihx ihy | moreMembers _ _ ihx ihy =>
      exact hjoin ihx (List.forall_mem_cons.mpr ⟨by decide, ihy⟩)
  | member hw hs hw' _ ih =>
      refine hjoin (hjoin (hjoin hw.ne_nul ?_) hw'.ne_nul)
        (List.forall_mem_cons.mpr ⟨by decide, ih⟩)
      exact hjoin (List.forall_mem_cons.mpr ⟨by decide, hs.ne_nul⟩) hquote

/-- Blanks before a value are found again. -/
theorem Blank.append_inj {w w' : List UInt8} {b b' : UInt8} (hw : Blank w)
    (hw' : Blank w') (hb : blank b = false) (hb' : blank b' = false)
    (h : w ++ b :: x = w' ++ b' :: y) : b :: x = b' :: y := by
  have hdrop : ∀ {w : List UInt8} {b : UInt8} {x : List UInt8}, Blank w →
      blank b = false → (w ++ b :: x).dropWhile blank = b :: x := by
    intro w b x hw hb
    rw [List.dropWhile_append_of_pos hw, List.dropWhile_cons_of_neg (by simp [hb])]
  rw [← hdrop hw hb, h, hdrop hw' hb']

/-- Whether a value is enclosed shows in its first byte. -/
theorem Enclosed.of_head {b : UInt8} (hv : Text .value (b :: x))
    (h : Enclosed (b :: y)) : Enclosed (b :: x) := by
  obtain ⟨b', z, heq, hb⟩ := h.head
  injection heq with heq
  exact ⟨hv, b, x, rfl, heq ▸ hb⟩

/-- A parser refuses an enclosed value that is cut short. -/
theorem Prefixed.cut {β : Type u} {parse : List UInt8 → Option β}
    (h : Prefixed parse) {t z : List UInt8} (hw : Blank w) (hv : Enclosed v)
    (ht : w ++ v = t ++ z) (hz : z ≠ []) : parse t = none := by
  have hnul : ∀ b ∈ t, b ≠ 0 := by
    intro b hb
    have hmem : b ∈ w ++ v := ht ▸ List.mem_append_left z hb
    rcases List.mem_append.mp hmem with hmem | hmem
    · exact hw.ne_nul b hmem
    · exact hv.text.ne_nul b hmem
  obtain ⟨b, x, rfl, hb⟩ := hv.text.head
  cases hparse : parse t with
  | none => rfl
  | some value =>
      exfalso
      obtain ⟨lead, v', rest, rfl, hlead, hv'⟩ := h.accepted t value hnul hparse
      obtain ⟨b', x', rfl, hb'⟩ := hv'.head
      rcases hlead with hlead | ⟨w', rfl, -⟩
      · -- the value found begins where the enclosed one does
        have hsplit : w ++ b :: x = lead ++ b' :: (x' ++ rest ++ z) := by
          simpa using ht
        have heq := hw.append_inj hlead hb hb' hsplit
        injection heq with hhead htail
        subst hhead
        have hv'' : Enclosed (b :: x') := Enclosed.of_head hv' hv
        rw [htail, List.append_assoc] at hv
        have hnil := hv''.eq_of_append (q := rest ++ z) hv
        exact hz (List.append_eq_nil_iff.mp hnil).2
      · -- no byte order mark: the text begins with a blank or the value
        cases w with
        | nil =>
            obtain ⟨a, y, heq, ha⟩ := hv.head
            injection heq with heq
            injection ht with ht
            rw [← heq, ht] at ha
            rcases ha with ha | ha <;> cases ha
        | cons a w =>
            have ha := hw a List.mem_cons_self
            injection ht with ht
            rw [ht] at ha
            cases ha

end Kit.Json
