/-
JSON texts (RFC 8259): what a text says, and texts built to say a given thing.

`parse` reads a text by the grammar of the RFC, with escapes and surrogate pairs, fractions,
exponents and whitespace. A `Doc` is a text together with the value it reads as, so a text
put together from documents is a document again.
-/
import Mathlib.Algebra.Field.Rat
import Mathlib.Data.List.Basic
import Mathlib.Data.Nat.Notation

set_option autoImplicit false

namespace Json

/-- What a text stands for. A member of an object may occur twice. -/
inductive Value where
  | null
  | bool (b : Bool)
  | number (q : ℚ)
  | string (s : String)
  | array (elements : List Value)
  | object (members : List (String × Value))

/-! ## Strings -/

/-- `HEXDIG`, in either case. -/
def hex_value (c : Char) : Option ℕ :=
  if c.isDigit then some (c.toNat - 48)
  else if 97 ≤ c.toNat ∧ c.toNat ≤ 102 then some (c.toNat - 87)
  else if 65 ≤ c.toNat ∧ c.toNat ≤ 70 then some (c.toNat - 55)
  else none

/-- The four digits of a code unit. -/
def read_unit : List Char → Option (ℕ × List Char)
  | a :: b :: c :: d :: rest => do
    let a ← hex_value a
    let b ← hex_value b
    let c ← hex_value c
    let d ← hex_value d
    return (((a * 16 + b) * 16 + c) * 16 + d, rest)
  | _ => none

/-- What follows `\u`: a code unit, or two that are a surrogate pair. -/
def read_escaped_unit (cs : List Char) : Option (Char × List Char) := do
  let (high, rest) ← read_unit cs
  if high < 0xD800 ∨ 0xDFFF < high then return (Char.ofNat high, rest)
  else if high < 0xDC00 then
    match rest with
    | '\\' :: 'u' :: rest => do
      let (low, rest) ← read_unit rest
      if 0xDC00 ≤ low ∧ low ≤ 0xDFFF then
        return (Char.ofNat (0x10000 + (high - 0xD800) * 0x400 + (low - 0xDC00)), rest)
      else none
    | _ => none
  else none

/-- One character of a string, as it is or escaped. -/
def read_char : List Char → Option (Char × List Char)
  | [] => none
  | '\"' :: _ => none
  | '\\' :: '\"' :: rest => some ('\"', rest)
  | '\\' :: '\\' :: rest => some ('\\', rest)
  | '\\' :: '/' :: rest => some ('/', rest)
  | '\\' :: 'b' :: rest => some (Char.ofNat 0x08, rest)
  | '\\' :: 'f' :: rest => some (Char.ofNat 0x0C, rest)
  | '\\' :: 'n' :: rest => some (Char.ofNat 0x0A, rest)
  | '\\' :: 'r' :: rest => some (Char.ofNat 0x0D, rest)
  | '\\' :: 't' :: rest => some (Char.ofNat 0x09, rest)
  | '\\' :: 'u' :: rest => read_escaped_unit rest
  | '\\' :: _ => none
  -- Control characters must be escaped.
  | c :: rest => if c.toNat < 0x20 then none else some (c, rest)

/-- The rest of a string, up to its closing quotation mark; the bound is on its characters. -/
def read_string : ℕ → List Char → Option (List Char × List Char)
  | 0, _ => none
  | n + 1, cs =>
    if cs.head? = some '\"' then some ([], cs.tail)
    else do
      let (c, rest) ← read_char cs
      let (s, rest) ← read_string n rest
      return (c :: s, rest)

/-! ## Numbers -/

/-- A run of digits, and what follows it. -/
def read_digits (cs : List Char) : List Char × List Char :=
  (cs.takeWhile Char.isDigit, cs.dropWhile Char.isDigit)

def read_fraction : List Char → Option (List Char × List Char)
  | '.' :: rest =>
    let (ds, rest) := read_digits rest
    if ds = [] then none else some (ds, rest)
  | cs => some ([], cs)

def read_sign : List Char → ℤ × List Char
  | '-' :: rest => (-1, rest)
  | '+' :: rest => (1, rest)
  | cs => (1, cs)

def read_exponent : List Char → Option (ℤ × List Char)
  | [] => some (0, [])
  | c :: rest =>
    if c = 'e' ∨ c = 'E' then
      let (sign, rest) := read_sign rest
      let (ds, rest) := read_digits rest
      if ds = [] then none else some (sign * Nat.ofDigitChars 10 ds 0, rest)
    else some (0, c :: rest)

/-- A number without its minus sign; no leading zeros. -/
def read_unsigned (cs : List Char) : Option (ℚ × List Char) := do
  let (int, rest) := read_digits cs
  if int = [] ∨ (int.head? = some '0' ∧ int ≠ ['0']) then none
  else
    let (frac, rest) ← read_fraction rest
    let (exponent, rest) ← read_exponent rest
    return (Nat.ofDigitChars 10 (int ++ frac) 0 / 10 ^ frac.length * 10 ^ exponent, rest)

def read_number (cs : List Char) : Option (ℚ × List Char) :=
  if cs.head? = some '-' then (read_unsigned cs.tail).map fun (q, rest) => (-q, rest)
  else read_unsigned cs

/-! ## Values -/

def is_space (c : Char) : Bool := c = ' ' || c = '\t' || c = '\n' || c = '\r'

def skip (cs : List Char) : List Char := cs.dropWhile is_space

def read_literal (word : List Char) (v : Value) (cs : List Char) : Option (Value × List Char) :=
  if word <+: cs then some (v, cs.drop word.length) else none

/-- The name of a member, with its colon. -/
def read_key (cs : List Char) : Option (String × List Char) :=
  if cs.head? = some '\"' then
    (read_string cs.tail.length cs.tail).bind fun (key, rest) =>
      let rest := skip rest
      if rest.head? = some ':' then some (String.ofList key, rest.tail) else none
  else none

mutual

/-- A value and what follows it. The bound is on the values and members inside one another and
one after the other; every one of them has a character. -/
def read_value : ℕ → List Char → Option (Value × List Char)
  | 0, _ => none
  | n + 1, cs =>
    let cs := skip cs
    if cs.head? = some '\"' then
      (read_string cs.tail.length cs.tail).map fun (s, rest) => (.string (String.ofList s), rest)
    else if cs.head? = some '\x7b' then
      let cs := skip cs.tail
      if cs.head? = some '\x7d' then some (.object [], cs.tail)
      else (read_members n cs).map fun (members, rest) => (.object members, rest)
    else if cs.head? = some '[' then
      let cs := skip cs.tail
      if cs.head? = some ']' then some (.array [], cs.tail)
      else (read_elements n cs).map fun (elements, rest) => (.array elements, rest)
    else if cs.head? = some 'n' then read_literal ['n', 'u', 'l', 'l'] .null cs
    else if cs.head? = some 't' then read_literal ['t', 'r', 'u', 'e'] (.bool true) cs
    else if cs.head? = some 'f' then read_literal ['f', 'a', 'l', 's', 'e'] (.bool false) cs
    else (read_number cs).map fun (q, rest) => (.number q, rest)

/-- The elements of an array up to its closing bracket. -/
def read_elements : ℕ → List Char → Option (List Value × List Char)
  | 0, _ => none
  | n + 1, cs => do
    let (v, rest) ← read_value n cs
    let rest := skip rest
    if rest.head? = some ',' then
      (read_elements n rest.tail).map fun (vs, rest) => (v :: vs, rest)
    else if rest.head? = some ']' then some ([v], rest.tail)
    else none

/-- The members of an object up to its closing brace. -/
def read_members : ℕ → List Char → Option (List (String × Value) × List Char)
  | 0, _ => none
  | n + 1, cs => do
    let (key, rest) ← read_key (skip cs)
    let (v, rest) ← read_value n rest
    let rest := skip rest
    if rest.head? = some ',' then
      (read_members n rest.tail).map fun (members, rest) => ((key, v) :: members, rest)
    else if rest.head? = some '\x7d' then some ([(key, v)], rest.tail)
    else none

end

/-- The value of a text, if it is one JSON text and nothing else. -/
def parse (text : String) : Option Value :=
  match read_value text.toList.length text.toList with
  | some (v, rest) => if skip rest = [] then some v else none
  | none => none

/-! ## Documents -/

/-- A number that ends before this ends there. -/
def Stops (rest : List Char) : Prop :=
  ∀ c ∈ rest.head?, c.isDigit = false ∧ c ≠ '.' ∧ c ≠ 'e' ∧ c ≠ 'E'

/-- **A text and the value it reads as**, whatever comes behind it; nothing in it needs escaping
any more. -/
structure Doc where
  text : List Char
  value : Value
  reads : ∀ n rest, text.length ≤ n → Stops rest → read_value n (text ++ rest) = some (value, rest)
  printable : ∀ c ∈ text, 0x20 ≤ c.toNat

/-- A way to write each character of a string so that it reads as itself. -/
structure Escaper where
  escape : Char → List Char
  reads : ∀ c rest, read_char (escape c ++ rest) = some (c, rest)
  printable : ∀ c, ∀ x ∈ escape c, 0x20 ≤ x.toNat

theorem skip_cons {c : Char} {cs : List Char} (h : is_space c = false) :
    skip (c :: cs) = c :: cs := by
  rw [skip, List.dropWhile_cons, h]
  rfl

theorem printable_of_all {cs : List Char} (h : (cs.all fun c => 0x20 ≤ c.toNat) = true) :
    ∀ c ∈ cs, 0x20 ≤ c.toNat :=
  fun c hc => of_decide_eq_true (List.all_eq_true.mp h c hc)

namespace Doc

def null : Doc where
  text := ['n', 'u', 'l', 'l']
  value := .null
  reads := by
    intro n rest hn _
    obtain ⟨n, rfl⟩ : ∃ m, n = m + 1 := ⟨n - 1, by simp at hn; omega⟩
    rfl
  printable := printable_of_all (by decide)

def bool (b : Bool) : Doc where
  text := if b then ['t', 'r', 'u', 'e'] else ['f', 'a', 'l', 's', 'e']
  value := .bool b
  reads := by
    intro n rest hn _
    obtain ⟨n, rfl⟩ : ∃ m, n = m + 1 := ⟨n - 1, by cases b <;> simp at hn <;> omega⟩
    cases b <;> rfl
  printable := by cases b <;> exact printable_of_all (by decide)

@[simp] theorem bool_text (b : Bool) : (bool b).text = (toString b).toList := by cases b <;> rfl

end Doc

/-! ### Strings -/

section Strings

variable (e : Escaper)

namespace Escaper

def escaped (s : List Char) : List Char := s.flatMap e.escape

variable {e}

theorem escape_ne_nil (c : Char) : e.escape c ≠ [] := by
  intro hnil
  have hread := e.reads c []
  rw [hnil] at hread
  cases hread

/-- No escape begins like the end of the string. -/
theorem head_escape (c : Char) (rest : List Char) : (e.escape c ++ rest).head? ≠ some '\"' := by
  intro hhead
  have hread := e.reads c rest
  obtain ⟨tail, htail⟩ := List.head?_eq_some_iff.mp hhead
  rw [htail] at hread
  cases hread

theorem length_le_escaped (s : List Char) : s.length ≤ (e.escaped s).length := by
  induction s with
  | nil => exact Nat.le_refl 0
  | cons c s ih =>
      have hpos := List.length_pos_iff.mpr (e.escape_ne_nil c)
      rw [escaped, List.flatMap_cons, List.length_append, List.length_cons]
      unfold escaped at ih
      omega

/-- By the characters of the string. -/
theorem read_string_escaped (s rest : List Char) : ∀ {n : ℕ}, s.length < n →
    read_string n (e.escaped s ++ '\"' :: rest) = some (s, rest) := by
  induction s with
  | nil =>
      intro n hn
      obtain ⟨n, rfl⟩ : ∃ m, n = m + 1 := ⟨n - 1, by omega⟩
      rfl
  | cons c s ih =>
      intro n hn
      rw [List.length_cons] at hn
      obtain ⟨n, rfl⟩ : ∃ m, n = m + 1 := ⟨n - 1, by omega⟩
      rw [escaped, List.flatMap_cons, List.append_assoc, read_string, if_neg (head_escape c _),
        e.reads c]
      have hrest := ih (n := n) (by omega)
      unfold escaped at hrest
      rw [Option.bind_eq_bind, Option.bind_some]
      dsimp only
      rw [hrest]
      rfl

theorem printable_escaped {s : List Char} : ∀ c ∈ e.escaped s, 0x20 ≤ c.toNat := by
  intro c hc
  obtain ⟨x, _, hx⟩ := List.mem_flatMap.mp hc
  exact e.printable x c hx

end Escaper

/-- A string between its quotation marks. -/
def Doc.str (s : String) : Doc where
  text := '\"' :: (e.escaped s.toList ++ ['\"'])
  value := .string s
  reads := by
    intro n rest hn _
    rw [List.length_cons] at hn
    obtain ⟨n, rfl⟩ : ∃ m, n = m + 1 := ⟨n - 1, by omega⟩
    rw [List.cons_append, List.append_assoc, List.singleton_append, read_value,
      skip_cons (by decide)]
    have hlen : s.toList.length < (e.escaped s.toList ++ '\"' :: rest).length := by
      have := e.length_le_escaped s.toList
      simp only [List.length_append, List.length_cons]
      omega
    have hread := Escaper.read_string_escaped (e := e) s.toList rest hlen
    simp only [List.head?_cons, List.tail_cons, if_true, hread, Option.map_some,
      String.ofList_toList]
  printable := by
    intro c hc
    simp only [List.mem_cons, List.mem_append, List.not_mem_nil, or_false] at hc
    rcases hc with rfl | hc | rfl
    · decide
    · exact Escaper.printable_escaped c hc
    · decide

@[simp] theorem Doc.str_text (s : String) :
    (Doc.str e s).text = '\"' :: (e.escaped s.toList ++ ['\"']) := rfl

end Strings

/-! ### Numbers -/

theorem read_digits_append {ds rest : List Char} (hds : ∀ c ∈ ds, c.isDigit = true)
    (hrest : Stops rest) : read_digits (ds ++ rest) = (ds, rest) := by
  have hnone : rest.takeWhile Char.isDigit = [] ∧ rest.dropWhile Char.isDigit = rest := by
    rcases rest with _ | ⟨c, rest⟩
    · exact ⟨rfl, rfl⟩
    · have hc := (hrest c rfl).1
      rw [List.takeWhile_cons, List.dropWhile_cons, hc]
      exact ⟨rfl, rfl⟩
  rw [read_digits, List.takeWhile_append_of_pos hds, List.dropWhile_append_of_pos hds, hnone.1,
    hnone.2, List.append_nil]

/-- Only zero is written with a zero in front. -/
theorem head_toDigits {m : ℕ} (hpos : 0 < m) : (Nat.toDigits 10 m).head? ≠ some '0' := by
  by_cases hlt : m < 10
  · have hdigit : ∀ d < 10, 0 < d → some (Nat.digitChar d) ≠ some '0' := by decide
    rw [Nat.toDigits_of_lt_base hlt]
    exact hdigit m hlt hpos
  · have hne : Nat.toDigits 10 (m / 10) ≠ [] := Nat.toDigits_ne_nil
    rw [Nat.toDigits_of_base_le (by decide) (by omega), List.head?_append_of_ne_nil _ hne]
    exact head_toDigits (by omega)
termination_by m
decreasing_by omega

/-- A natural number in decimal: no sign, fraction or exponent, and no leading zero. -/
theorem read_unsigned_nat (m : ℕ) {rest : List Char} (hrest : Stops rest) :
    read_unsigned (Nat.toDigits 10 m ++ rest) = some ((m : ℚ), rest) := by
  have hdigits : ∀ c ∈ Nat.toDigits 10 m, c.isDigit = true :=
    fun c hc => Nat.isDigit_of_mem_toDigits (by decide) (by decide) hc
  have hfraction : read_fraction rest = some ([], rest) := by
    unfold read_fraction
    split
    · exact absurd rfl (hrest _ rfl).2.1
    · rfl
  have hexponent : read_exponent rest = some (0, rest) := by
    rcases rest with _ | ⟨c, rest⟩
    · rfl
    · obtain ⟨_, _, he, hE⟩ := hrest c rfl
      rw [read_exponent, if_neg (by simp [he, hE])]
  have hzero : ¬ ((Nat.toDigits 10 m).head? = some '0' ∧ Nat.toDigits 10 m ≠ ['0']) := by
    rintro ⟨hhead, hne⟩
    by_cases hm : m = 0
    · exact hne (by rw [hm, Nat.toDigits_zero])
    · exact head_toDigits (by omega) hhead
  rw [read_unsigned, read_digits_append hdigits hrest]
  dsimp only
  rw [if_neg (by simp [hzero, Nat.toDigits_ne_nil]), hfraction]
  simp [hexponent, Nat.ofDigitChars_ten_toDigits]

theorem toList_ofNat (m : ℕ) : (toString (Int.ofNat m)).toList = Nat.toDigits 10 m :=
  Nat.toList_repr

theorem toList_negSucc (m : ℕ) :
    (toString (Int.negSucc m)).toList = '-' :: Nat.toDigits 10 (m + 1) := by
  have hrepr : toString (Int.negSucc m) = "-" ++ (m + 1).repr := rfl
  rw [hrepr, String.toList_append, Nat.toList_repr]
  rfl

/-- Minus and digits. -/
theorem mem_toString_int {z : ℤ} {c : Char} (hc : c ∈ (toString z).toList) :
    c = '-' ∨ c.isDigit = true := by
  have hdigit : ∀ {m : ℕ}, c ∈ Nat.toDigits 10 m → c.isDigit = true :=
    fun h => Nat.isDigit_of_mem_toDigits (by decide) (by decide) h
  rcases z with m | m
  · rw [toList_ofNat] at hc
    exact .inr (hdigit hc)
  · rw [toList_negSucc] at hc
    rcases List.mem_cons.mp hc with hc | hc
    · exact .inl hc
    · exact .inr (hdigit hc)

theorem read_number_int (z : ℤ) {rest : List Char} (hrest : Stops rest) :
    read_number ((toString z).toList ++ rest) = some ((z : ℚ), rest) := by
  rcases z with m | m
  · have hminus : (Nat.toDigits 10 m ++ rest).head? ≠ some '-' := by
      rw [List.head?_append_of_ne_nil _ Nat.toDigits_ne_nil]
      intro hhead
      have hdigit := Nat.isDigit_of_mem_toDigits (by decide) (by decide) (List.mem_of_head? hhead)
      exact absurd hdigit (by decide)
    rw [toList_ofNat, read_number, if_neg hminus, read_unsigned_nat m hrest]
    rfl
  · rw [toList_negSucc, List.cons_append, read_number, List.head?_cons, if_pos rfl, List.tail_cons,
      read_unsigned_nat (m + 1) hrest]
    simp [Int.negSucc_eq]

/-- Nothing else begins with a minus or a digit. -/
theorem read_value_number {n : ℕ} {c : Char} {cs : List Char} (hc : c = '-' ∨ c.isDigit = true) :
    read_value (n + 1) (c :: cs)
      = (read_number (c :: cs)).map fun (q, rest) => (.number q, rest) := by
  have hother : ∀ {d : Char}, ¬ (d = '-' ∨ d.isDigit = true) → ¬ (c :: cs).head? = some d := by
    intro d hd hhead
    rw [← Option.some.inj hhead] at hd
    exact hd hc
  have hspace : is_space c = false := by
    by_contra h
    simp only [is_space, Bool.not_eq_false, Bool.or_eq_true, decide_eq_true_eq] at h
    rcases h with ((rfl | rfl) | rfl) | rfl <;> exact absurd hc (by decide)
  rw [read_value, skip_cons hspace]
  dsimp only
  rw [if_neg (hother (by decide)), if_neg (hother (by decide)), if_neg (hother (by decide)),
    if_neg (hother (by decide)), if_neg (hother (by decide)), if_neg (hother (by decide))]

/-- An integer in decimal. -/
def Doc.int (z : ℤ) : Doc where
  text := (toString z).toList
  value := .number z
  reads := by
    intro n rest hn hrest
    have hread := read_number_int z hrest
    have hchars := fun c => mem_toString_int (z := z) (c := c)
    have hne : (toString z).toList ≠ [] := by
      rcases z with m | m
      · rw [toList_ofNat]
        exact Nat.toDigits_ne_nil
      · rw [toList_negSucc]
        exact List.cons_ne_nil _ _
    generalize (toString z).toList = text at hread hchars hne hn
    obtain ⟨c, cs, rfl⟩ := List.exists_cons_of_ne_nil hne
    obtain ⟨n, rfl⟩ : ∃ m, n = m + 1 := ⟨n - 1, by rw [List.length_cons] at hn; omega⟩
    rw [List.cons_append] at hread ⊢
    rw [read_value_number (hchars c List.mem_cons_self), hread]
    rfl
  printable := by
    intro c hc
    rcases mem_toString_int hc with rfl | hc
    · decide
    · simp only [Char.isDigit, Bool.and_eq_true, decide_eq_true_eq] at hc
      have hzero : '0'.toNat ≤ c.toNat := UInt32.le_iff_toNat_le.mp hc.1
      exact Nat.le_trans (by decide) hzero

@[simp] theorem Doc.int_text (z : ℤ) : (Doc.int z).text = (toString z).toList := rfl

/-! ### Objects -/

section Objects

variable (e : Escaper)

def member_text (m : String × Doc) : List Char :=
  '\"' :: (e.escaped m.1.toList ++ '\"' :: ':' :: m.2.text)

/-- Members in order, with commas between them. -/
def members_text : List (String × Doc) → List Char
  | [] => []
  | [m] => member_text e m
  | m :: m' :: ms => member_text e m ++ ',' :: members_text (m' :: ms)

variable {e}

theorem read_key_escaped (key : String) (rest : List Char) :
    read_key ('\"' :: (e.escaped key.toList ++ '\"' :: ':' :: rest)) = some (key, rest) := by
  have hlen : key.toList.length < (e.escaped key.toList ++ '\"' :: ':' :: rest).length := by
    have := e.length_le_escaped key.toList
    simp only [List.length_append, List.length_cons]
    omega
  have hkey := Escaper.read_string_escaped (e := e) key.toList (':' :: rest) hlen
  rw [read_key, List.head?_cons, if_pos rfl, List.tail_cons, hkey, Option.bind_some]
  dsimp only
  rw [skip_cons (by decide), List.head?_cons, if_pos rfl, List.tail_cons, String.ofList_toList]

/-- A member is read up to the mark behind it. -/
theorem read_member {m : String × Doc} {n : ℕ} {mark : Char} (hn : m.2.text.length ≤ n)
    (hmark : mark = ',' ∨ mark = '\x7d') (rest : List Char) :
    read_members (n + 1) (member_text e m ++ mark :: rest)
      = if mark = ',' then (read_members n rest).map fun (members, rest) =>
          ((m.1, m.2.value) :: members, rest)
        else some ([(m.1, m.2.value)], rest) := by
  have hstops : Stops (mark :: rest) := by
    intro c hc
    obtain rfl : mark = c := Option.some.inj hc
    rcases hmark with rfl | rfl <;> decide
  have hspace : is_space mark = false := by
    rcases hmark with rfl | rfl <;> rfl
  have hvalue := m.2.reads n (mark :: rest) hn hstops
  have hkey := read_key_escaped (e := e) m.1 (m.2.text ++ mark :: rest)
  rw [member_text, List.cons_append, List.append_assoc, List.cons_append, List.cons_append,
    read_members, skip_cons (by decide), hkey, Option.bind_eq_bind, Option.bind_some]
  dsimp only
  rw [hvalue, Option.bind_eq_bind, Option.bind_some]
  dsimp only
  rw [skip_cons hspace, List.head?_cons, List.tail_cons]
  rcases hmark with rfl | rfl
  · rfl
  · rfl

/-- By the members. -/
theorem read_members_text {ms : List (String × Doc)} (hne : ms ≠ []) (rest : List Char) :
    ∀ {n : ℕ}, (members_text e ms).length ≤ n →
      read_members n (members_text e ms ++ '\x7d' :: rest)
        = some (ms.map fun m => (m.1, m.2.value), rest) := by
  have hmember : ∀ m : String × Doc, m.2.text.length < (member_text e m).length := by
    intro m
    simp only [member_text, List.length_cons, List.length_append]
    omega
  induction ms with
  | nil =>
      intro n _
      exact absurd rfl hne
  | cons m ms ih =>
      intro n hn
      have hpos := hmember m
      rcases ms with _ | ⟨m', ms⟩
      · rw [members_text] at hn ⊢
        obtain ⟨n, rfl⟩ : ∃ k, n = k + 1 := ⟨n - 1, by omega⟩
        rw [read_member (by omega) (.inr rfl), if_neg (by decide)]
        rfl
      · rw [members_text, List.length_append, List.length_cons] at hn
        obtain ⟨n, rfl⟩ : ∃ k, n = k + 1 := ⟨n - 1, by omega⟩
        rw [members_text, List.append_assoc, List.cons_append, read_member (by omega) (.inl rfl),
          if_pos rfl, ih (List.cons_ne_nil _ _) (by omega)]
        rfl

/-- A nonempty list of members begins with a quotation mark. -/
theorem members_text_eq_cons {ms : List (String × Doc)} (hne : ms ≠ []) :
    ∃ tail, members_text e ms = '\"' :: tail := by
  rcases ms with _ | ⟨m, _ | ⟨m', ms⟩⟩
  · exact absurd rfl hne
  · exact ⟨_, rfl⟩
  · exact ⟨_, rfl⟩

theorem printable_members_text {ms : List (String × Doc)} :
    ∀ c ∈ members_text e ms, 0x20 ≤ c.toNat := by
  have hmember : ∀ m : String × Doc, ∀ c ∈ member_text e m, 0x20 ≤ c.toNat := by
    intro m c hc
    simp only [member_text, List.mem_cons, List.mem_append] at hc
    rcases hc with rfl | hc | rfl | rfl | hc
    · decide
    · exact Escaper.printable_escaped c hc
    · decide
    · decide
    · exact m.2.printable c hc
  induction ms with
  | nil => exact fun c hc => by cases hc
  | cons m ms ih =>
      intro c hc
      rcases ms with _ | ⟨m', ms⟩
      · exact hmember m c hc
      · rw [members_text] at hc
        rcases List.mem_append.mp hc with hc | hc
        · exact hmember m c hc
        · rcases List.mem_cons.mp hc with rfl | hc
          · decide
          · exact ih c hc

variable (e)

/-- An object between its braces. -/
def Doc.object (members : List (String × Doc)) : Doc where
  text := '\x7b' :: (members_text e members ++ ['\x7d'])
  value := .object (members.map fun m => (m.1, m.2.value))
  reads := by
    intro n rest hn _
    rw [List.length_cons, List.length_append] at hn
    obtain ⟨n, rfl⟩ : ∃ m, n = m + 1 := ⟨n - 1, by omega⟩
    rw [List.cons_append, List.append_assoc, List.singleton_append, read_value,
      skip_cons (by decide), List.head?_cons, List.tail_cons]
    dsimp only
    rw [if_neg (by decide), if_pos rfl]
    by_cases hne : members = []
    · subst hne
      rfl
    · have hread := read_members_text (e := e) hne rest (n := n) (by omega)
      obtain ⟨tail, htail⟩ := members_text_eq_cons (e := e) hne
      rw [htail] at hread ⊢
      rw [List.cons_append] at hread ⊢
      rw [skip_cons (by decide), List.head?_cons, if_neg (by decide), hread]
      rfl
  printable := by
    intro c hc
    simp only [List.mem_cons, List.mem_append, List.not_mem_nil, or_false] at hc
    rcases hc with rfl | hc | rfl
    · decide
    · exact printable_members_text c hc
    · decide

@[simp] theorem Doc.object_text (members : List (String × Doc)) :
    (Doc.object e members).text = '\x7b' :: (members_text e members ++ ['\x7d']) := rfl

end Objects

/-- **A document is one JSON text, of its value.** -/
theorem Doc.parse_text (d : Doc) : parse (String.ofList d.text) = some d.value := by
  have hread := d.reads d.text.length [] (Nat.le_refl _) (fun c hc => by cases hc)
  rw [List.append_nil] at hread
  rw [parse, String.toList_ofList, hread]
  rfl

end Json
