import Lindenmayer.Expr.Printer

/-!
# Elements and words

An element is a symbol with up to three parameters. Parameters are numbers in words, names in the
contexts and predecessors of productions, and formulas in successors.
Elements are compatible when their symbols and their numbers of parameters agree.
-/

namespace Lindenmayer

/-- Types whose values have a canonical text in grammars. -/
class Written (α : Type) where
  text : α → List Char

instance : Written Float := ⟨shortText⟩
instance : Written String := ⟨String.toList⟩
instance : Written Expr := ⟨Expr.text⟩

/-- The largest number of parameters. -/
def maxParams : Nat := 3

/-- The parameters of an element. -/
structure Params (α : Type) where
  values : List α
  length_le : values.length ≤ maxParams
deriving DecidableEq

namespace Params

variable {α β : Type}

/-- No parameters. -/
def empty : Params α :=
  ⟨[], Nat.zero_le _⟩

theorem length_singleton_le (v : α) : [v].length ≤ maxParams :=
  Nat.le_add_left 1 2

/-- Parameters in the given order, unless there are too many. -/
def ofList (values : List α) : Except Error (Params α) :=
  if h : values.length ≤ maxParams then .ok ⟨values, h⟩ else .error (.capacity values.length)

/-- The number of parameters. -/
def arity (params : Params α) : Nat :=
  params.values.length

/-- There is a result for each value. -/
theorem length_of_mapM {ε : Type} {f : α → Except ε β} {values : List α} {results : List β}
    (h : values.mapM f = .ok results) : results.length = values.length := by
  induction values generalizing results with
  | nil =>
    simp only [List.mapM_nil] at h
    cases h
    rfl
  | cons v values ih =>
    rw [List.mapM_cons] at h
    cases hv : f v with
    | error e => simp [hv, bind, Except.bind] at h
    | ok r =>
      cases hvs : values.mapM f with
      | error e => simp [hv, hvs, bind, Except.bind] at h
      | ok rs =>
        simp only [hv, hvs, bind, Except.bind, pure, Except.pure, Except.ok.injEq] at h
        rw [← h, List.length_cons, List.length_cons, ih hvs]

/-- The results of `f` on all parameters, or the first error among them. -/
def traverse {ε : Type} (f : α → Except ε β) (params : Params α) : Except ε (Params β) :=
  match h : params.values.mapM f with
  | .ok results => .ok ⟨results, by rw [length_of_mapM h]; exact params.length_le⟩
  | .error e => .error e

/-- Parameters in parentheses, or nothing if there are none. -/
def text [Written α] (params : Params α) : List Char :=
  if params.values.isEmpty then []
  else '(' :: [',', ' '].intercalate (params.values.map Written.text) ++ [')']

end Params

/-- A symbol with its parameters. -/
structure Element (α : Type) where
  symbol : Char
  params : Params α
deriving DecidableEq

namespace Element

variable {α β : Type}

/-- An element without parameters. -/
def plain (symbol : Char) : Element α :=
  ⟨symbol, .empty⟩

/-- The number of parameters. -/
def arity (e : Element α) : Nat :=
  e.params.arity

/-- An element whose symbol is given as a text, which must be a single character. -/
def ofText (symbol : List Char) (params : Params α) : Except Error (Element α) :=
  match symbol with
  | [c] => .ok ⟨c, params⟩
  | _ => .error (.grammar (.symbolLength symbol))

/-- Same symbol and same number of parameters, whatever their values. -/
def compatible (e : Element α) (f : Element β) : Bool :=
  e.symbol == f.symbol && e.arity == f.arity

/-- The symbol, followed by the parameters if there are any. -/
def text [Written α] (e : Element α) : List Char :=
  e.symbol :: e.params.text

end Element

/-- The text of several elements, one after another. -/
def elementsText {α : Type} [Written α] (elements : List (Element α)) : List Char :=
  elements.flatMap Element.text

/-- A word is what an L-system holds: elements with numbers as parameters. -/
abbrev Word := List (Element Float)

namespace Word

/-- A word of elements without parameters. -/
def ofSymbols (symbols : List Char) : Word :=
  symbols.map Element.plain

/-- The symbols of a word. -/
def symbols (word : Word) : List Char :=
  word.map Element.symbol

/-- The text of a word. -/
def text (word : Word) : List Char :=
  elementsText word

/-- The element at a position; negative positions count from the end. -/
def element (word : Word) (position : Int) : Except Error (Element Float) :=
  let index := if position < 0 then position + word.length else position
  match index with
  | .ofNat i =>
    match word[i]? with
    | some e => .ok e
    | none => .error .elementIndex
  | .negSucc _ => .error .elementIndex

end Word

end Lindenmayer
