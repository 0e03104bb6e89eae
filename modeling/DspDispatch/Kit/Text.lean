import Mathlib.Data.List.TakeWhile
import Mathlib.Data.String.Basic

/-!
# Splitting texts and reading numerals

The string operations of a scripting language. `before marker s` is what comes
before the first occurrence of a marker, `split` and `splitOnce` cut at a
separator, and `Unicode.isdigit` and `Unicode.int` recognize and read numerals.
Each has a lemma that undoes a concatenation.

Which characters beyond ASCII are digits is up to the character database of the
interpreter, so that is a parameter, `Unicode`.
-/

namespace Kit

/-! ## The text before a marker -/

/-- What comes before the first occurrence of the marker, or everything. -/
def beforeList (marker : List Char) : List Char → List Char
  | [] => []
  | c :: s => if marker.isPrefixOf (c :: s) then [] else c :: beforeList marker s

def before (marker s : String) : String := String.ofList (beforeList marker.toList s.toList)

/-- A marker whose first character comes only once does not overlap itself. -/
theorem not_prefix_of_overlap {m : Char} {marker front rest : List Char} (once : m ∉ marker)
    (nonempty : front ≠ []) (inside : front.length < (m :: marker).length) :
    ¬ (m :: marker) <+: front ++ (m :: marker) ++ rest := by
  intro starts
  obtain ⟨tail, joined⟩ := List.prefix_of_prefix_length_le
    ((List.prefix_append front (m :: marker)).trans (List.prefix_append _ rest)) starts
    (Nat.le_of_lt inside)
  have later : tail <+: (m :: marker) ++ rest := by
    rw [← List.prefix_append_right_inj front, joined, ← List.append_assoc]
    exact starts
  cases tail with
  | nil =>
    rw [List.append_nil] at joined
    rw [joined] at inside
    exact Nat.lt_irrefl _ inside
  | cons t tail =>
    obtain ⟨rfl, -⟩ := List.cons_prefix_cons.mp later
    cases front with
    | nil => exact nonempty rfl
    | cons f front =>
      obtain ⟨-, rfl⟩ := List.cons.inj joined
      exact once (List.mem_append_right _ List.mem_cons_self)

theorem beforeList_append {m c : Char} {marker : List Char} (once : m ∉ marker)
    (contains : c ∈ m :: marker) (front rest : List Char) (absent : c ∉ front) :
    beforeList (m :: marker) (front ++ (m :: marker) ++ rest) = front := by
  induction front with
  | nil =>
    have starts : (m :: marker).isPrefixOf (m :: (marker ++ rest)) = true :=
      List.isPrefixOf_iff_prefix.mpr (List.prefix_append (m :: marker) rest)
    rw [List.nil_append, List.cons_append, beforeList, if_pos starts]
  | cons f front ih =>
    have absent' : c ∉ front := fun member => absent (List.mem_cons_of_mem f member)
    have misses : ¬ (m :: marker) <+: (f :: front) ++ (m :: marker) ++ rest := by
      by_cases short : (f :: front).length < (m :: marker).length
      · exact not_prefix_of_overlap once (List.cons_ne_nil f front) short
      · intro starts
        have whole : (m :: marker) <+: f :: front := List.prefix_of_prefix_length_le starts
          ((List.prefix_append _ (m :: marker)).trans (List.prefix_append _ rest)) (by omega)
        exact absent (whole.subset contains)
    have differs : ¬ (m :: marker).isPrefixOf (f :: (front ++ (m :: marker) ++ rest)) = true :=
      fun starts => misses (List.isPrefixOf_iff_prefix.mp starts)
    rw [List.cons_append, List.cons_append, beforeList, if_neg differs, ih absent']

theorem beforeList_of_absent {c : Char} {marker : List Char} (contains : c ∈ marker)
    {s : List Char} (absent : c ∉ s) : beforeList marker s = s := by
  induction s with
  | nil => rfl
  | cons f s ih =>
    have differs : ¬ marker.isPrefixOf (f :: s) = true := by
      intro starts
      exact absent ((List.isPrefixOf_iff_prefix.mp starts).subset contains)
    rw [beforeList, if_neg differs, ih fun member => absent (List.mem_cons_of_mem f member)]

theorem before_append {m c : Char} {tail : List Char} {marker : String}
    (shape : marker.toList = m :: tail) (once : m ∉ tail) (contains : c ∈ marker.toList)
    {front : String} (absent : c ∉ front.toList) (rest : String) :
    before marker (front ++ marker ++ rest) = front := by
  rw [shape] at contains
  rw [before, String.toList_append, String.toList_append, shape,
    beforeList_append once contains _ _ absent, String.ofList_toList]

theorem before_of_absent {c : Char} {marker s : String} (contains : c ∈ marker.toList)
    (absent : c ∉ s.toList) : before marker s = s := by
  rw [before, beforeList_of_absent contains absent, String.ofList_toList]

/-! ## Splitting at a separator -/

/-- The pieces of a text between the separators. -/
def split (sep : Char) (s : String) : List String := (s.toList.splitOn sep).map String.ofList

theorem split_intercalate {sep : Char} {pieces : List String}
    (absent : ∀ p ∈ pieces, sep ∉ p.toList) (nonempty : pieces ≠ []) :
    split sep ((String.singleton sep).intercalate pieces) = pieces := by
  have cut : List.splitOn sep ([sep].intercalate (pieces.map String.toList)) =
      pieces.map String.toList := by
    refine List.splitOn_intercalate sep ?_ (by simpa using nonempty)
    intro l member
    obtain ⟨p, inside, rfl⟩ := List.mem_map.mp member
    exact absent p inside
  rw [split, String.toList_intercalate, String.toList_singleton, cut, List.map_map]
  exact (List.map_congr_left fun p _ => String.ofList_toList).trans (List.map_id pieces)

/-- The pieces before and after the first separator. -/
def splitOnce (sep : Char) (s : String) : List String :=
  match s.toList.dropWhile (· ≠ sep) with
  | [] => [s]
  | _ :: rest => [String.ofList (s.toList.takeWhile (· ≠ sep)), String.ofList rest]

theorem splitOnce_append {sep : Char} {front : String} (absent : sep ∉ front.toList)
    (rest : String) : splitOnce sep (front ++ String.singleton sep ++ rest) = [front, rest] := by
  have keeps : ∀ c ∈ front.toList, decide (c ≠ sep) = true := by
    intro c member
    refine decide_eq_true ?_
    intro same
    exact absent (same ▸ member)
  have drop : (sep :: rest.toList).dropWhile (fun c => decide (c ≠ sep)) = sep :: rest.toList := by
    simp
  have take : (sep :: rest.toList).takeWhile (fun c => decide (c ≠ sep)) = [] := by simp
  rw [splitOnce, String.toList_append, String.toList_append, String.toList_singleton,
    List.append_assoc, List.dropWhile_append_of_pos keeps, List.takeWhile_append_of_pos keeps,
    List.singleton_append, drop, take, List.append_nil]
  exact congrArg₂ (fun a b => [a, b]) String.ofList_toList String.ofList_toList

theorem splitOnce_of_absent {sep : Char} {s : String} (absent : sep ∉ s.toList) :
    splitOnce sep s = [s] := by
  have keeps : ∀ c ∈ s.toList, decide (c ≠ sep) = true := by
    intro c member
    refine decide_eq_true ?_
    intro same
    exact absent (same ▸ member)
  rw [splitOnce, List.dropWhile_eq_nil_iff.mpr keeps]

/-! ## Numerals -/

theorem toList_toString (n : Nat) : (toString n).toList = Nat.toDigits 10 n := by simp

/-- The character database of the interpreter: the values of the decimal digits, and
the characters `isdigit` accepts, which are these and others such as superscripts.
Of the ASCII characters they are the ten digits. -/
structure Unicode where
  decimal : Char → Option Nat
  isDigit : Char → Bool
  isDigit_of_decimal : ∀ c d, decimal c = some d → isDigit c = true
  decimal_ascii : ∀ c, c.isDigit = true → decimal c = some (c.toNat - '0'.toNat)
  isDigit_ascii : ∀ c, c.toNat < 128 → c.isDigit = false → isDigit c = false

namespace Unicode

/-- The database that knows ASCII only. -/
def ascii : Unicode where
  decimal c := if c.isDigit then some (c.toNat - '0'.toNat) else none
  isDigit c := c.isDigit
  isDigit_of_decimal := by
    intro c d value
    cases digit : c.isDigit with
    | true => rfl
    | false => simp [digit] at value
  decimal_ascii := by
    intro c digit
    exact if_pos digit
  isDigit_ascii := fun _ _ other => other

variable (u : Unicode)

/-- `s.isdigit()`. -/
def isdigit (s : String) : Bool := !s.toList.isEmpty && s.toList.all u.isDigit

/-- `int(s)` of a text of digits, where `none` is a `ValueError`: not every digit is
a decimal one. The interpreter's limit on the number of digits is left out. -/
def int (s : String) : Option Nat :=
  s.toList.foldlM (fun n c => (u.decimal c).map fun d => 10 * n + d) 0

variable {u}

theorem isdigit_toString (n : Nat) : u.isdigit (toString n) = true := by
  have all : (Nat.toDigits 10 n).all u.isDigit = true := by
    refine List.all_eq_true.mpr ?_
    intro c member
    have digit : c.isDigit = true := Nat.isDigit_of_mem_toDigits (by omega) (Nat.le_refl 10) member
    exact u.isDigit_of_decimal c _ (u.decimal_ascii c digit)
  rw [isdigit, toList_toString, all, Bool.and_true, Bool.not_eq_true']
  exact List.isEmpty_eq_false_iff.mpr Nat.toDigits_ne_nil

theorem int_digits {cs : List Char} (digits : ∀ c ∈ cs, c.isDigit = true) (n : Nat) :
    cs.foldlM (fun n c => (u.decimal c).map fun d => 10 * n + d) n =
      some (Nat.ofDigitChars 10 cs n) := by
  induction cs generalizing n with
  | nil => rw [Nat.ofDigitChars_nil]; rfl
  | cons c cs ih =>
    rw [List.foldlM_cons, u.decimal_ascii c (digits c List.mem_cons_self), Nat.ofDigitChars_cons]
    exact ih (fun c member => digits c (List.mem_cons_of_mem _ member)) _

/-- Reading a numeral gives the number back. -/
theorem int_toString (n : Nat) : u.int (toString n) = some n := by
  rw [int, toList_toString, int_digits, Nat.ofDigitChars_ten_toDigits]
  intro c member
  exact Nat.isDigit_of_mem_toDigits (by omega) (Nat.le_refl 10) member

/-- A text with an ASCII character that is no digit is no numeral. -/
theorem isdigit_eq_false {s : String} {c : Char} (member : c ∈ s.toList) (ascii : c.toNat < 128)
    (other : c.isDigit = false) : u.isdigit s = false := by
  have fails : s.toList.all u.isDigit = false := by
    refine List.all_eq_false.mpr ⟨c, member, ?_⟩
    rw [u.isDigit_ascii c ascii other]
    exact Bool.false_ne_true
  rw [isdigit, fails, Bool.and_false]

end Unicode

theorem toString_injective {m n : Nat} (same : toString m = toString n) : m = n := by
  have read := Unicode.int_toString (u := .ascii) m
  rw [same, Unicode.int_toString] at read
  exact (Option.some.inj read).symm

/-- A numeral consists of digits. -/
theorem notMem_toString {c : Char} (other : c.isDigit = false) (n : Nat) :
    c ∉ (toString n).toList := by
  intro member
  rw [toList_toString] at member
  have digit := Nat.isDigit_of_mem_toDigits (by omega) (Nat.le_refl 10) member
  rw [other] at digit
  cases digit

end Kit
