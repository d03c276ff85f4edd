import Lindenmayer.Number.Literal
import Lindenmayer.Proofs.Text.Digits

/-!
# The pattern of number literals

A literal is an optional sign, a mantissa and an optional exponent, each described here by the
texts that belong to it and by what they stand for. `Literal.take?` takes such a text off the front,
and it takes the whole of one unless the text after it goes on with a digit, a point or an exponent.
-/

namespace Lindenmayer.Literal

open Text

/-! ## The pattern -/

/-- A run of digits: at least one, and nothing else. -/
def IsRun (digits : List Char) : Prop :=
  digits ≠ [] ∧ ∀ c ∈ digits, isDigit c

/-- The texts of signs; `true` stands for minus. -/
inductive IsSign : List Char → Bool → Prop where
  | absent : IsSign [] false
  | plus : IsSign ['+'] false
  | minus : IsSign ['-'] true

/-- The texts of mantissas, with the digits before the point and those after it. -/
inductive IsMantissa : List Char → List Char → List Char → Prop where
  | whole {digits : List Char} (hrun : IsRun digits) : IsMantissa digits digits []
  | pointed {whole fraction : List Char} (hrun : IsRun whole)
      (hfraction : ∀ c ∈ fraction, isDigit c) :
      IsMantissa (whole ++ '.' :: fraction) whole fraction
  | fraction {fraction : List Char} (hrun : IsRun fraction) :
      IsMantissa ('.' :: fraction) [] fraction

/-- The texts of exponents and their values. -/
inductive IsExponent : List Char → Int → Prop where
  | absent : IsExponent [] 0
  | marked {mark : Char} {sign digits : List Char} {negative : Bool}
      (hmark : mark = 'e' ∨ mark = 'E') (hsign : IsSign sign negative) (hrun : IsRun digits) :
      IsExponent (mark :: sign ++ digits)
        (if negative then -Int.ofNat (digitsValue digits) else Int.ofNat (digitsValue digits))

/-- The texts of literals and the decimals they stand for. -/
inductive IsLiteral : List Char → Decimal → Prop where
  | intro {sign mantissa exponent whole fraction : List Char} {negative : Bool} {value : Int}
      (hsign : IsSign sign negative) (hmantissa : IsMantissa mantissa whole fraction)
      (hexponent : IsExponent exponent value) :
      IsLiteral (sign ++ mantissa ++ exponent)
        ⟨negative, digitsValue (whole ++ fraction), value - fraction.length⟩

theorem IsMantissa.ne_nil {mantissa whole fraction : List Char}
    (h : IsMantissa mantissa whole fraction) : mantissa ≠ [] := by
  cases h with
  | whole hrun => exact hrun.1
  | pointed hrun _ => simp
  | fraction hrun => simp

theorem IsLiteral.ne_nil {literal : List Char} {d : Decimal} (h : IsLiteral literal d) :
    literal ≠ [] := by
  obtain ⟨_, hmantissa, _⟩ := h
  simp [hmantissa.ne_nil]

/-- The characters of literals. -/
theorem IsLiteral.mem {literal : List Char} {d : Decimal} (h : IsLiteral literal d) {c : Char}
    (hc : c ∈ literal) : isDigit c ∨ c ∈ ['+', '-', '.', 'e', 'E'] := by
  have hsigns {sign : List Char} {negative : Bool} (hsign : IsSign sign negative)
      (hc : c ∈ sign) : c ∈ ['+', '-', '.', 'e', 'E'] := by
    cases hsign <;> simp_all
  obtain ⟨hsign, hmantissa, hexponent⟩ := h
  rw [List.mem_append, List.mem_append] at hc
  rcases hc with (hc | hc) | hc
  · exact .inr (hsigns hsign hc)
  · cases hmantissa with
    | whole hrun => exact .inl (hrun.2 c hc)
    | pointed hrun hfraction =>
      rcases List.mem_append.1 hc with hc | hc
      · exact .inl (hrun.2 c hc)
      · rcases List.mem_cons.1 hc with rfl | hc
        · exact .inr (by simp)
        · exact .inl (hfraction c hc)
    | fraction hrun =>
      rcases List.mem_cons.1 hc with rfl | hc
      · exact .inr (by simp)
      · exact .inl (hrun.2 c hc)
  · cases hexponent with
    | absent => exact absurd hc List.not_mem_nil
    | marked hmark hsign hrun =>
      rcases List.mem_append.1 hc with hc | hc
      · rcases List.mem_cons.1 hc with rfl | hc
        · rcases hmark with rfl | rfl <;> exact .inr (by simp)
        · exact .inr (hsigns hsign hc)
      · exact .inl (hrun.2 c hc)

/-! ## What is taken off belongs to the pattern -/

/-- A sign is taken from the front, if there is one. -/
theorem isSign_takeSign (text : List Char) :
    ∃ sign, IsSign sign (takeSign text).1 ∧ text = sign ++ (takeSign text).2 := by
  unfold takeSign
  split
  · exact ⟨['-'], .minus, rfl⟩
  · exact ⟨['+'], .plus, rfl⟩
  · exact ⟨[], .absent, rfl⟩

theorem isDigit_of_mem_takeWhile {text : List Char} {c : Char}
    (h : c ∈ text.takeWhile isDigit) : isDigit c := by
  have hall := List.all_takeWhile (p := isDigit) (l := text)
  rw [List.all_eq_true] at hall
  exact hall c h

/-- The digits in front are a run, if there are any. -/
theorem isRun_takeWhile {text : List Char} (h : text.takeWhile isDigit ≠ []) :
    IsRun (text.takeWhile isDigit) :=
  ⟨h, fun _ => isDigit_of_mem_takeWhile⟩

/-- What is taken as a mantissa is one. -/
theorem isMantissa_of_takeMantissa {text whole fraction rest : List Char}
    (h : takeMantissa text = some (whole, fraction, rest)) :
    ∃ mantissa, IsMantissa mantissa whole fraction ∧ text = mantissa ++ rest := by
  have hsplit := List.takeWhile_append_dropWhile (p := isDigit) (l := text)
  unfold takeMantissa at h
  simp only at h
  split at h
  · -- a point follows the digits
    rename_i tail hpoint
    rw [hpoint] at hsplit
    have htail := List.takeWhile_append_dropWhile (p := isDigit) (l := tail)
    split at h
    · exact absurd h (by simp)
    · rename_i hempty
      obtain ⟨rfl, rfl, rfl⟩ := by simpa using h
      refine ⟨text.takeWhile isDigit ++ '.' :: tail.takeWhile isDigit, ?_, ?_⟩
      · by_cases hwhole : text.takeWhile isDigit = []
        · rw [hwhole, List.nil_append]
          exact .fraction (isRun_takeWhile (by simpa [hwhole] using hempty))
        · exact .pointed (isRun_takeWhile hwhole) fun _ => isDigit_of_mem_takeWhile
      · rw [List.append_assoc, List.cons_append, htail, hsplit]
  · split at h
    · exact absurd h (by simp)
    · rename_i hempty
      obtain ⟨rfl, rfl, rfl⟩ := by simpa using h
      exact ⟨text.takeWhile isDigit, .whole (isRun_takeWhile (by simpa using hempty)), hsplit.symm⟩

/-- An exponent is taken from the front, if there is one. -/
theorem isExponent_takeExponent (text : List Char) :
    ∃ exponent, IsExponent exponent (takeExponent text).1 ∧
      text = exponent ++ (takeExponent text).2 := by
  unfold takeExponent
  split
  · exact ⟨[], .absent, rfl⟩
  · rename_i mark tail
    split
    · rename_i hmark
      obtain ⟨sign, hsign, htail⟩ := isSign_takeSign tail
      have hsplit := List.takeWhile_append_dropWhile (p := isDigit) (l := (takeSign tail).2)
      simp only
      split
      · exact ⟨[], .absent, rfl⟩
      · rename_i hempty
        refine ⟨mark :: sign ++ (takeSign tail).2.takeWhile isDigit,
          .marked (by simpa using hmark) hsign (isRun_takeWhile (by simpa using hempty)), ?_⟩
        rw [List.append_assoc, hsplit, List.cons_append, ← htail]
    · exact ⟨[], .absent, rfl⟩

/-- What is taken off a text is a literal. -/
theorem isLiteral_of_take? {text rest : List Char} {d : Decimal}
    (h : take? text = some (d, rest)) :
    ∃ literal, IsLiteral literal d ∧ text = literal ++ rest := by
  simp only [take?, Option.bind_eq_bind, Option.bind_eq_some_iff, Option.some.injEq] at h
  obtain ⟨⟨whole, fraction, tail⟩, hmantissa, hrest⟩ := h
  obtain ⟨rfl, rfl⟩ := Prod.mk.injEq .. ▸ hrest
  obtain ⟨sign, hs, htext⟩ := isSign_takeSign text
  obtain ⟨mantissa, hm, hunsigned⟩ := isMantissa_of_takeMantissa hmantissa
  obtain ⟨exponent, he, htail⟩ := isExponent_takeExponent tail
  refine ⟨sign ++ mantissa ++ exponent, .intro hs hm he, ?_⟩
  rw [List.append_assoc, ← htail, List.append_assoc, ← hunsigned, ← htext]

/-! ## The whole of a literal is taken off -/

/-- Texts that do not go on with a literal that has ended. -/
def EndsLiteral (rest : List Char) : Prop :=
  ∀ c ∈ rest.head?, ¬isDigit c ∧ c ≠ '.' ∧ c ≠ 'e' ∧ c ≠ 'E'

@[simp]
theorem endsLiteral_nil : EndsLiteral [] := by
  simp [EndsLiteral]

/-- The characters with which a number would go on. -/
@[simp]
theorem endsLiteral_cons {c : Char} {rest : List Char} :
    EndsLiteral (c :: rest) ↔ ¬isDigit c ∧ c ≠ '.' ∧ c ≠ 'e' ∧ c ≠ 'E' := by
  simp [EndsLiteral]

/-- Texts that do not begin with a digit. -/
def NoDigit (rest : List Char) : Prop :=
  ∀ c ∈ rest.head?, ¬isDigit c

theorem EndsLiteral.noDigit {rest : List Char} (h : EndsLiteral rest) : NoDigit rest :=
  fun c hc => (h c hc).1

theorem noDigit_cons {c : Char} {rest : List Char} (h : isDigit c = false) :
    NoDigit (c :: rest) := by
  simp [NoDigit, h]

/-- A run of digits is taken as far as it goes. -/
theorem takeWhile_run {digits rest : List Char} (h : ∀ c ∈ digits, isDigit c)
    (hrest : NoDigit rest) : (digits ++ rest).takeWhile isDigit = digits := by
  rw [List.takeWhile_append_of_pos h]
  cases rest with
  | nil => simp
  | cons c rest =>
    rw [List.takeWhile_cons_of_neg (hrest c rfl), List.append_nil]

/-- And it is dropped as far as it goes. -/
theorem dropWhile_run {digits rest : List Char} (h : ∀ c ∈ digits, isDigit c)
    (hrest : NoDigit rest) : (digits ++ rest).dropWhile isDigit = rest := by
  rw [List.dropWhile_append_of_pos h]
  cases rest with
  | nil => rfl
  | cons c rest => exact List.dropWhile_cons_of_neg (hrest c rfl)

theorem ne_of_isDigit {c d : Char} (hc : isDigit c) (hd : isDigit d = false) : c ≠ d := by
  rintro rfl
  rw [hc] at hd
  exact absurd hd (by simp)

/-- A sign is taken off a text that goes on without another one. -/
theorem takeSign_append {sign rest : List Char} {negative : Bool} (h : IsSign sign negative)
    (hrest : ∀ c ∈ rest.head?, c ≠ '-' ∧ c ≠ '+') : takeSign (sign ++ rest) = (negative, rest) := by
  cases h with
  | plus => rfl
  | minus => rfl
  | absent =>
    rw [List.nil_append]
    unfold takeSign
    split
    · exact absurd rfl (hrest _ rfl).1
    · exact absurd rfl (hrest _ rfl).2
    · rfl

/-- A run of digits does not begin with a sign. -/
theorem IsRun.head_ne {digits rest : List Char} (h : IsRun digits) :
    ∀ c ∈ (digits ++ rest).head?, c ≠ '-' ∧ c ≠ '+' := by
  obtain ⟨hne, hall⟩ := h
  cases digits with
  | nil => exact absurd rfl hne
  | cons d digits =>
    intro c hc
    obtain rfl : d = c := by simpa using hc
    have hd := hall d List.mem_cons_self
    exact ⟨ne_of_isDigit hd (by decide), ne_of_isDigit hd (by decide)⟩

/-- A mantissa begins with a digit or a point. -/
theorem IsMantissa.head_ne {mantissa whole fraction rest : List Char}
    (h : IsMantissa mantissa whole fraction) :
    ∀ c ∈ (mantissa ++ rest).head?, c ≠ '-' ∧ c ≠ '+' := by
  cases h with
  | whole hrun => exact hrun.head_ne
  | pointed hrun _ =>
    rw [List.append_assoc]
    exact hrun.head_ne
  | fraction hrun => simp

/-- A mantissa is taken as a whole. -/
theorem takeMantissa_append {mantissa whole fraction rest : List Char}
    (h : IsMantissa mantissa whole fraction) (hrest : ∀ c ∈ rest.head?, ¬isDigit c ∧ c ≠ '.') :
    takeMantissa (mantissa ++ rest) = some (whole, fraction, rest) := by
  have hdigit : NoDigit rest := fun c hc => (hrest c hc).1
  have hpoint (tail : List Char) : NoDigit ('.' :: tail) := noDigit_cons (by decide)
  cases h with
  | whole hrun =>
    have hne : (mantissa.isEmpty) = false := by simpa using hrun.1
    simp only [takeMantissa, takeWhile_run hrun.2 hdigit, dropWhile_run hrun.2 hdigit]
    split
    · exact absurd rfl (hrest _ rfl).2
    · simp [hne]
  | pointed hrun hfraction =>
    rw [List.append_assoc, List.cons_append]
    have hne : (whole.isEmpty) = false := by simpa using hrun.1
    simp [takeMantissa, takeWhile_run hrun.2 (hpoint _), dropWhile_run hrun.2 (hpoint _),
      takeWhile_run hfraction hdigit, dropWhile_run hfraction hdigit, hne]
  | fraction hrun =>
    have hne : (fraction.isEmpty) = false := by simpa using hrun.1
    -- there are no digits in front of the point
    have hwhole := @takeWhile_run [] _ (by simp) (hpoint (fraction ++ rest))
    have hdrop := @dropWhile_run [] _ (by simp) (hpoint (fraction ++ rest))
    rw [List.nil_append] at hwhole hdrop
    simp [takeMantissa, hwhole, hdrop, takeWhile_run hrun.2 hdigit, dropWhile_run hrun.2 hdigit,
      hne]

/-- An exponent is taken as a whole. -/
theorem takeExponent_append {exponent rest : List Char} {value : Int}
    (h : IsExponent exponent value) (hrest : EndsLiteral rest) :
    takeExponent (exponent ++ rest) = (value, rest) := by
  cases h with
  | absent =>
    rw [List.nil_append]
    cases rest with
    | nil => rfl
    | cons c rest =>
      obtain ⟨-, -, he, hE⟩ := endsLiteral_cons.1 hrest
      simp [takeExponent, he, hE]
  | @marked mark sign digits negative hmark hsign hrun =>
    have hne : (digits.isEmpty) = false := by simpa using hrun.1
    have hsigned := takeSign_append hsign (@IsRun.head_ne _ rest hrun)
    rw [List.append_assoc, List.cons_append]
    simp [takeExponent, hsigned, takeWhile_run hrun.2 hrest.noDigit,
      dropWhile_run hrun.2 hrest.noDigit, hne, hmark]

/-- The text after a mantissa: an exponent and what follows the literal. -/
theorem IsExponent.head_ne {exponent rest : List Char} {value : Int}
    (h : IsExponent exponent value) (hrest : EndsLiteral rest) :
    ∀ c ∈ (exponent ++ rest).head?, ¬isDigit c ∧ c ≠ '.' := by
  cases h with
  | absent => exact fun c hc => ⟨(hrest c hc).1, (hrest c hc).2.1⟩
  | marked hmark _ _ =>
    intro c hc
    obtain rfl : _ = c := by simpa using hc
    rcases hmark with rfl | rfl <;> decide

/-- A literal is taken off whole. -/
theorem take?_append {literal rest : List Char} {d : Decimal} (h : IsLiteral literal d)
    (hrest : EndsLiteral rest) : take? (literal ++ rest) = some (d, rest) := by
  obtain ⟨hsign, hmantissa, hexponent⟩ := h
  rw [List.append_assoc, List.append_assoc]
  simp [take?, takeSign_append hsign hmantissa.head_ne,
    takeMantissa_append hmantissa (hexponent.head_ne hrest), takeExponent_append hexponent hrest]

/-- Every literal begins with a sign, a digit or a point. -/
theorem take?_of_head {c : Char} (hdigit : ¬isDigit c) (hmark : c ∉ ['+', '-', '.'])
    (rest : List Char) : take? (c :: rest) = none := by
  simp only [List.mem_cons, List.not_mem_nil, or_false, not_or] at hmark
  have hsign := @takeSign_append [] (c :: rest) false .absent (by simp [hmark])
  rw [List.nil_append] at hsign
  simp [take?, hsign, takeMantissa, hdigit, hmark]

/-- A letter begins no number. -/
theorem take?_of_isAlpha {c : Char} (h : c.isAlpha) (rest : List Char) :
    take? (c :: rest) = none := by
  refine take?_of_head (not_isDigit_of_isAlpha h) (fun hmark => ?_) rest
  have hall : ∀ d ∈ ['+', '-', '.'], d.isAlpha = false := forall_mem_of_all (by decide)
  rw [hall c hmark] at h
  exact Bool.false_ne_true h

end Lindenmayer.Literal
