import Mathlib
import Waldur.Lib.CheckDigits
import Waldur.Lib.PythonText
import Waldur.Proposals.AwardIds

/-!
# Proposals.Mistyping — award identifiers with a slip of the pen

`_luhn` doubles every second digit, but starts with the second one from the right of what it is taken over: the last
digit of the sequence and the check digit next to it both count as they are.  So the sum sees every replaced digit and
every two neighbours that change places, but for these two (`rejected_iff`).
-/

namespace Waldur.Proposals

open PythonText CheckDigits

/-! ## Slips -/

/-- One digit is replaced by another one. -/
def Replaced (l l' : List Char) : Prop :=
  ∃ p a b q, l = p ++ a :: q ∧ l' = p ++ b :: q ∧ a.isDigit = true ∧ b.isDigit = true ∧ a ≠ b

/-- Two digits with nothing or dashes between them change places, other than 0 and 9. -/
def Swapped (l l' : List Char) : Prop :=
  ∃ p a dashes b q, l = p ++ a :: (dashes ++ b :: q) ∧ l' = p ++ b :: (dashes ++ a :: q) ∧ (∀ c ∈ dashes, c = '-') ∧
    a.isDigit = true ∧ b.isDigit = true ∧ a ≠ b ∧ ¬ (a = '0' ∧ b = '9') ∧ ¬ (a = '9' ∧ b = '0')

/-- A slip left of the version. -/
def Mistyped (s t : String) : Prop :=
  ∃ left left' version, s.toList = left ++ '-' :: version ∧ t.toList = left' ++ '-' :: version ∧ '-' ∉ version ∧
    (Replaced left left' ∨ Swapped left left')

/-- The check digit and the digit before it change places. -/
def CheckSwapped (s t : String) : Prop :=
  ∃ p a b version, s.toList = p ++ a :: b :: '-' :: version ∧ t.toList = p ++ b :: a :: '-' :: version ∧ '-' ∉ version

/-! ## The sum with the check digit -/

section Sum

variable {l p q : List Char} {a b c : Char} {i x y : ℕ} {g : Groups}

/-- What a digit counts, by its position from the check digit on. -/
def counts (position : ℕ) (c : Char) : ℕ := luhnValue (position - 1) (readDigits [c])

/-- The digits of a text, but not its dashes. -/
def digitsOf (l : List Char) : List Char := l.filter fun c => decide (c ≠ '-')

/-- The sum of the digits is a multiple of ten. -/
def Checks (l : List Char) : Prop := weighed counts l.reverse ≡ 0 [MOD 10]

theorem luhn_eq_iff (h : c.isDigit = true) : luhn l = readDigits [c] ↔ Checks (l ++ [c]) := by
  have hlt : readDigits [c] < 10 := by
    have hone := readDigits_lt (l := [c]) fun c' hc' => List.mem_singleton.mp hc' ▸ h
    rwa [List.length_singleton, pow_one] at hone
  have hsum : weighed counts (l ++ [c]).reverse =
      readDigits [c] + weighed (fun i c => luhnValue i (readDigits [c])) l.reverse := by
    rw [List.reverse_append, List.reverse_singleton, List.singleton_append, weighed_cons]
    rfl
  unfold Checks
  rw [hsum, Nat.add_comm]
  exact complement_iff hlt

theorem luhnValue_modEq (hx : x < 10) (hy : y < 10) : luhnValue i x ≡ luhnValue i y [MOD 10] ↔ x = y := by
  have hdoubled : ∀ x < 10, ∀ y < 10, luhnValue 1 x % 10 = luhnValue 1 y % 10 → x = y := by decide
  have hplain : ∀ x < 10, ∀ y < 10, luhnValue 0 x % 10 = luhnValue 0 y % 10 → x = y := by decide
  refine ⟨fun h => ?_, fun h => h ▸ Nat.ModEq.refl _⟩
  rcases Nat.mod_two_eq_zero_or_one i with hi | hi
  · have hzero : ∀ x, luhnValue i x = luhnValue 0 x := fun x => by simp [luhnValue, hi]
    rw [hzero, hzero] at h
    exact hplain x hx y hy h
  · have hone : ∀ x, luhnValue i x = luhnValue 1 x := fun x => by simp [luhnValue, hi]
    rw [hone, hone] at h
    exact hdoubled x hx y hy h

/-- Of two neighbours one is doubled: they count the same both ways only if they are 0 and 9. -/
theorem luhnValue_swapped (hx : x < 10) (hy : y < 10)
    (h : luhnValue i x + luhnValue (i + 1) y ≡ luhnValue i y + luhnValue (i + 1) x [MOD 10]) :
    x = y ∨ x = 0 ∧ y = 9 ∨ x = 9 ∧ y = 0 := by
  have hpairs : ∀ x < 10, ∀ y < 10,
      (luhnValue 0 x + luhnValue 1 y) % 10 = (luhnValue 0 y + luhnValue 1 x) % 10 →
        x = y ∨ x = 0 ∧ y = 9 ∨ x = 9 ∧ y = 0 := by
    decide
  rcases Nat.mod_two_eq_zero_or_one i with hi | hi
  · have hzero : ∀ x, luhnValue i x = luhnValue 0 x := fun x => by simp [luhnValue, hi]
    have hone : ∀ x, luhnValue (i + 1) x = luhnValue 1 x := fun x => by
      have hnext : (i + 1) % 2 = 1 := by omega
      simp [luhnValue, hnext]
    rw [hzero, hzero, hone, hone] at h
    exact hpairs x hx y hy h
  · have hone : ∀ x, luhnValue i x = luhnValue 1 x := fun x => by simp [luhnValue, hi]
    have hzero : ∀ x, luhnValue (i + 1) x = luhnValue 0 x := fun x => by
      have hnext : (i + 1) % 2 = 0 := by omega
      simp [luhnValue, hnext]
    rw [hone, hone, hzero, hzero, Nat.add_comm, Nat.add_comm (luhnValue 1 y)] at h
    have hback := hpairs y hy x hx h
    omega

theorem readDigits_single_lt (h : a.isDigit = true) : readDigits [a] < 10 := by
  have hone := readDigits_lt (l := [a]) fun c hc => List.mem_singleton.mp hc ▸ h
  rwa [List.length_singleton, pow_one] at hone

theorem readDigits_single_inj (ha : a.isDigit = true) (hb : b.isDigit = true) (h : readDigits [a] = readDigits [b]) :
    a = b := by
  have hlength : [a].length = [b].length := rfl
  have hsame := readDigits_inj hlength (fun c hc => List.mem_singleton.mp hc ▸ ha)
    (fun c hc => List.mem_singleton.mp hc ▸ hb) h
  exact (List.cons.inj hsame).1

theorem checks_replaced (ha : a.isDigit = true) (hb : b.isDigit = true) (hne : a ≠ b) (h : Checks (p ++ a :: q)) :
    ¬ Checks (p ++ b :: q) := by
  intro h'
  have hreverse : ∀ c, (p ++ c :: q).reverse = q.reverse ++ c :: p.reverse := fun c => by simp
  unfold Checks at h h'
  rw [hreverse] at h h'
  have hcounts := weighed_replaced.mp (h.trans h'.symm)
  exact hne (readDigits_single_inj ha hb
    ((luhnValue_modEq (readDigits_single_lt ha) (readDigits_single_lt hb)).mp hcounts))

/-- The last two digits count as they are, so their order does not matter. -/
theorem checks_swapped_last (h : Checks (p ++ [a, b])) : Checks (p ++ [b, a]) := by
  have hreverse : ∀ c d : Char, (p ++ [c, d]).reverse = d :: c :: p.reverse := fun c d => by simp
  unfold Checks at h ⊢
  rw [hreverse, weighed_cons, weighed_cons] at h ⊢
  have hplain : counts 0 a + (counts 1 b + weighed (fun i => counts (i + 1 + 1)) p.reverse) =
      counts 0 b + (counts 1 a + weighed (fun i => counts (i + 1 + 1)) p.reverse) := by
    show readDigits [a] + (readDigits [b] + _) = readDigits [b] + (readDigits [a] + _)
    omega
  exact hplain ▸ h

/-- A swap is seen unless the last digit takes part in it. -/
theorem checks_swapped (ha : a.isDigit = true) (hb : b.isDigit = true) (hne : a ≠ b) (h09 : ¬ (a = '0' ∧ b = '9'))
    (h90 : ¬ (a = '9' ∧ b = '0')) (h : Checks (p ++ a :: b :: q)) : Checks (p ++ b :: a :: q) ↔ q = [] := by
  constructor
  · intro h'
    by_contra hq
    obtain ⟨n, hn⟩ := Nat.exists_eq_succ_of_ne_zero (mt List.length_eq_zero_iff.mp hq)
    have hreverse : ∀ c d, (p ++ c :: d :: q).reverse = q.reverse ++ d :: c :: p.reverse := fun c d => by simp
    have hcounts : counts q.length b + counts (q.length + 1) a ≡
        counts q.length a + counts (q.length + 1) b [MOD 10] := by
      unfold Checks at h h'
      rw [hreverse] at h h'
      rw [← @List.length_reverse _ q, ← weighed_swapped]
      exact h.trans h'.symm
    rw [hn] at hcounts
    have hzero : readDigits ['0'] = 0 := by decide
    have hnine : readDigits ['9'] = 9 := by decide
    have hd0 : ('0' : Char).isDigit = true := rfl
    have hd9 : ('9' : Char).isDigit = true := rfl
    rcases luhnValue_swapped (readDigits_single_lt hb) (readDigits_single_lt ha) hcounts with
      heq | ⟨hb0, ha9⟩ | ⟨hb9, ha0⟩
    · exact hne (readDigits_single_inj hb ha heq).symm
    · refine h90 ⟨readDigits_single_inj ha hd9 (ha9.trans hnine.symm), ?_⟩
      exact readDigits_single_inj hb hd0 (hb0.trans hzero.symm)
    · refine h09 ⟨readDigits_single_inj ha hd0 (ha0.trans hzero.symm), ?_⟩
      exact readDigits_single_inj hb hd9 (hb9.trans hnine.symm)
  · rintro rfl
    exact checks_swapped_last h

end Sum

/-! ## The text of an identifier -/

section Text

variable {l left left' version p q d : List Char} {a b c : Char} {g g' : Groups} {s t : String}

/-- The text left of the version. -/
def Groups.leftOf (g : Groups) : List Char := g.year ++ (g.scheme ++ '-' :: (g.head ++ '-' :: (g.tail ++ g.check)))

theorem Groups.text_eq : g.text = g.leftOf ++ '-' :: g.version := by
  simp [Groups.text, Groups.leftOf]

theorem ne_dash (h : isDecimal c = true) : c ≠ '-' := by
  rintro rfl
  rw [not_isDecimal_dash] at h
  cases h

theorem Groups.Matched.version_isDecimal (h : g.Matched) : ∀ c ∈ g.version, isDecimal c = true := by
  obtain ⟨c, l, hversion, hc, hl⟩ := h.version
  intro c' hc'
  rw [hversion] at hc'
  rcases List.mem_cons.mp hc' with rfl | hmem
  · exact isDecimal_of_isDigit (isDigit_of_range hc)
  · exact hl c' hmem

theorem Groups.Matched.dash_not_mem (h : g.Matched) : '-' ∉ g.version := fun hmem =>
  ne_dash (h.version_isDecimal _ hmem) rfl

theorem digitsOf_append : digitsOf (p ++ q) = digitsOf p ++ digitsOf q := List.filter_append ..

theorem digitsOf_cons (h : c ≠ '-') : digitsOf (c :: l) = c :: digitsOf l := List.filter_cons_of_pos (by simpa using h)

theorem digitsOf_dash : digitsOf ('-' :: l) = digitsOf l := List.filter_cons_of_neg (by simp)

theorem digitsOf_run {n : ℕ} (h : Run n l) : digitsOf l = l :=
  List.filter_eq_self.mpr fun c hc => decide_eq_true (ne_dash (h.2 c hc))

theorem digitsOf_dashes (h : ∀ c ∈ d, c = '-') : digitsOf d = [] :=
  List.filter_eq_nil_iff.mpr fun c hc => by simp [h c hc]

theorem Groups.Matched.digitsOf_leftOf (h : g.Matched) :
    digitsOf g.leftOf = g.year ++ g.scheme ++ (g.head ++ g.tail) ++ g.check := by
  unfold Groups.leftOf
  rw [digitsOf_append, digitsOf_append, digitsOf_dash, digitsOf_append, digitsOf_dash, digitsOf_append,
    digitsOf_run h.year, digitsOf_run h.scheme, digitsOf_run h.head, digitsOf_run h.tail, digitsOf_run h.check]
  simp

theorem Groups.mem_leftOf_of_check (h : c ∈ g.check) : c ∈ g.leftOf := by
  simp [Groups.leftOf, h]

/-- Groups of ASCII are valid for their sum. -/
theorem Groups.Matched.check_iff (h : g.Matched) (hcheck : ∀ c ∈ g.check, c.isDigit = true) :
    luhn (g.year ++ g.scheme ++ (g.head ++ g.tail)) = readDigits g.check ↔ Checks (digitsOf g.leftOf) := by
  obtain ⟨c, hc⟩ := List.length_eq_one_iff.mp h.check.1
  rw [h.digitsOf_leftOf, hc]
  exact luhn_eq_iff (hcheck c (hc ▸ List.mem_cons_self))

theorem digits_replaced (hleft : ∀ c ∈ p ++ a :: q, c = '-' ∨ c.isDigit = true) (hb : b.isDigit = true) :
    ∀ c ∈ p ++ b :: q, c = '-' ∨ c.isDigit = true := by
  intro c hc
  rcases List.mem_append.mp hc with hc | hc
  · exact hleft c (List.mem_append_left _ hc)
  · rcases List.mem_cons.mp hc with rfl | hc
    · exact Or.inr hb
    · exact hleft c (List.mem_append_right _ (List.mem_cons_of_mem _ hc))

theorem checks_digits_replaced (ha : a.isDigit = true) (hb : b.isDigit = true) (hne : a ≠ b)
    (h : Checks (digitsOf (p ++ a :: q))) : ¬ Checks (digitsOf (p ++ b :: q)) := by
  have hdash : ∀ c : Char, c.isDigit = true → c ≠ '-' := fun c hc => ne_dash (isDecimal_of_isDigit hc)
  rw [digitsOf_append, digitsOf_cons (hdash a ha)] at h
  rw [digitsOf_append, digitsOf_cons (hdash b hb)]
  exact checks_replaced ha hb hne h

theorem digits_swapped (hleft : ∀ c ∈ p ++ a :: (d ++ b :: q), c = '-' ∨ c.isDigit = true) (ha : a.isDigit = true)
    (hb : b.isDigit = true) : ∀ c ∈ p ++ b :: (d ++ a :: q), c = '-' ∨ c.isDigit = true := by
  have hsplit : ∀ x y : Char, p ++ x :: (d ++ y :: q) = (p ++ x :: d) ++ y :: q := fun x y => by simp
  rw [hsplit]
  refine digits_replaced (a := b) ?_ ha
  rw [← hsplit]
  exact digits_replaced hleft hb

theorem checks_digits_swapped (hd : ∀ c ∈ d, c = '-') (ha : a.isDigit = true) (hb : b.isDigit = true) (hne : a ≠ b)
    (h09 : ¬ (a = '0' ∧ b = '9')) (h90 : ¬ (a = '9' ∧ b = '0')) (h : Checks (digitsOf (p ++ a :: (d ++ b :: q)))) :
    Checks (digitsOf (p ++ b :: (d ++ a :: q))) ↔ digitsOf q = [] := by
  have hdash : ∀ c : Char, c.isDigit = true → c ≠ '-' := fun c hc => ne_dash (isDecimal_of_isDigit hc)
  have hdigits : ∀ x y : Char, x ≠ '-' → y ≠ '-' →
      digitsOf (p ++ x :: (d ++ y :: q)) = digitsOf p ++ x :: y :: digitsOf q := by
    intro x y hx hy
    rw [digitsOf_append, digitsOf_cons hx, digitsOf_append, digitsOf_dashes hd, digitsOf_cons hy, List.nil_append]
  rw [hdigits a b (hdash a ha) (hdash b hb)] at h
  rw [hdigits b a (hdash b hb) (hdash a ha)]
  exact checks_swapped ha hb hne h09 h90 h

/-! ## Identifiers with a slip -/

/-- The identifier of a sequence is the text of valid groups. -/
theorem formatAwardId_groups {sequence year version : ℤ} (h : formatAwardId sequence year version = .ok s) :
    AwardText s.toList := by
  have hbounds : (0 ≤ sequence ∧ sequence ≤ maxSequence) ∧ 1 ≤ version := by
    unfold formatAwardId at h
    split_ifs at h with hsequence hversion
    exact ⟨hsequence, by omega⟩
  have hyear : 2000 ≤ 2000 + year % 1000 ∧ 2000 + year % 1000 ≤ 2999 := by omega
  refine awardText_iff.mpr ⟨⟨sequence, 2000 + year % 1000, version, hbounds.1, hyear, hbounds.2⟩, ?_⟩
  have hmod : (2000 + year % 1000) % 1000 = year % 1000 := by omega
  have hsame : formatAwardId sequence (2000 + year % 1000) version = formatAwardId sequence year version := by
    unfold formatAwardId
    rw [hmod]
  exact hsame.trans h

theorem AwardText.isDigit (hg : g.Matched) (hascii : g.ascii = g) : ∀ c ∈ g.leftOf, c = '-' ∨ c.isDigit = true := by
  intro c hc
  have hmem : c ∈ g.leftOf.map asciiDigit := by
    have htext : g.ascii.leftOf = g.leftOf.map asciiDigit := by
      have hdash : asciiDigit '-' = '-' := asciiDigit_of_not_isDecimal not_isDecimal_dash
      simp only [Groups.leftOf, Groups.ascii, List.map_append, List.map_cons, hdash]
    rw [← htext, hascii]
    exact hc
  obtain ⟨c', hc', rfl⟩ := List.mem_map.mp hmem
  have hcases : c' = '-' ∨ isDecimal c' = true := by
    unfold Groups.leftOf at hc'
    simp only [List.mem_append, List.mem_cons] at hc'
    rcases hc' with h | h | h | h | h | h | h
    · exact Or.inr (hg.year.2 _ h)
    · exact Or.inr (hg.scheme.2 _ h)
    · exact Or.inl h
    · exact Or.inr (hg.head.2 _ h)
    · exact Or.inl h
    · exact Or.inr (hg.tail.2 _ h)
    · exact Or.inr (hg.check.2 _ h)
  rcases hcases with rfl | hdecimal
  · exact Or.inl (asciiDigit_of_not_isDecimal not_isDecimal_dash)
  · exact Or.inr (asciiDigit_isDigit hdecimal)

/-- What is read has a sum with its check digit. -/
theorem checks_of_read (ht : t.toList = left' ++ '-' :: version) (hleft : ∀ c ∈ left', c = '-' ∨ c.isDigit = true)
    (hversion : ∀ c ∈ version, isDecimal c = true) {r : ℤ × ℤ × ℤ} (h : parseAwardId t = .ok r) :
    Checks (digitsOf left') := by
  obtain ⟨year, sequence, number⟩ := r
  obtain ⟨g, hg, hvalid, htext, -⟩ := parseAwardId_eq_ok.mp h
  have hnodash : '-' ∉ version := fun hmem => ne_dash (hversion _ hmem) rfl
  have hplain : t.toList = g.text := by
    refine htext.resolve_right fun hnewline => ?_
    rw [ht, g.text_eq, List.append_assoc, List.cons_append] at hnewline
    have hnodash' : '-' ∉ g.version ++ ['\n'] := by
      intro hmem
      rcases List.mem_append.mp hmem with hmem | hmem
      · exact hg.dash_not_mem hmem
      · exact absurd (List.mem_singleton.mp hmem) (by decide)
    have hlast : '\n' ∈ version := by
      rw [(last_separator hnewline hnodash hnodash').2]
      exact List.mem_append_right _ List.mem_cons_self
    have hdecimal := hversion _ hlast
    rw [not_isDecimal_newline] at hdecimal
    cases hdecimal
  rw [ht, g.text_eq] at hplain
  obtain ⟨rfl, -⟩ := last_separator hplain hnodash hg.dash_not_mem
  refine (hg.check_iff fun c hc => ?_).mp hvalid.check
  exact (hleft c (Groups.mem_leftOf_of_check hc)).resolve_left (ne_dash (hg.check.2 c hc))

/-- The last digits before the version are the last one of the sequence and the check digit. -/
theorem Groups.Matched.leftOf_ends (h : g.Matched) : ∃ p x y, g.leftOf = p ++ [x, y] ∧ (∃ z, g.tail = z ++ [x]) ∧
    g.check = [y] ∧ isDecimal x = true ∧ isDecimal y = true := by
  obtain ⟨y, hy⟩ := List.length_eq_one_iff.mp h.check.1
  have hne : g.tail ≠ [] := by
    intro hnil
    have hlength := h.tail.1
    rw [hnil] at hlength
    cases hlength
  obtain ⟨z, x, hx⟩ := (List.eq_nil_or_concat' g.tail).resolve_left hne
  refine ⟨g.year ++ (g.scheme ++ '-' :: (g.head ++ '-' :: z)), x, y, ?_, ⟨z, hx⟩, hy, ?_, ?_⟩
  · simp [Groups.leftOf, hx, hy]
  · exact h.tail.2 x (hx ▸ List.mem_append_right _ List.mem_cons_self)
  · exact h.check.2 y (hy ▸ List.mem_cons_self)

/-- Only dashes follow the two digits, so nothing does, and no dash stands between them. -/
theorem swap_at_end (hg : g.Matched) (h : g.leftOf = p ++ a :: (d ++ b :: q)) (hd : ∀ c ∈ d, c = '-')
    (hq : digitsOf q = []) : d = [] ∧ q = [] := by
  obtain ⟨p', x, y, hends, -, -, hx, hy⟩ := hg.leftOf_ends
  have hqdash : ∀ c ∈ q, c = '-' := fun c hc => by simpa using List.filter_eq_nil_iff.mp hq c hc
  have hsplit : p ++ a :: (d ++ b :: q) = p' ++ [x, y] := h.symm.trans hends
  have hqnil : q = [] := by
    rcases List.eq_nil_or_concat' q with hnil | ⟨q', c, rfl⟩
    · exact hnil
    · have hlast : (p ++ a :: (d ++ b :: q')) ++ [c] = (p' ++ [x]) ++ [y] := by simpa using hsplit
      have hcy : c = y := (List.append_inj' hlast rfl).2 |> List.cons.inj |>.1
      exact absurd (hcy ▸ hqdash c (List.mem_append_right _ List.mem_cons_self)) (ne_dash hy)
  subst hqnil
  refine ⟨?_, rfl⟩
  rcases List.eq_nil_or_concat' d with hnil | ⟨d', c, rfl⟩
  · exact hnil
  · have hlast : ((p ++ a :: d') ++ [c]) ++ [b] = (p' ++ [x]) ++ [y] := by simpa using hsplit
    have hcx : (p ++ a :: d') ++ [c] = p' ++ [x] := (List.append_inj' hlast rfl).1
    have hsame : c = x := (List.append_inj' hcx rfl).2 |> List.cons.inj |>.1
    exact absurd (hsame ▸ hd c (List.mem_append_right _ List.mem_cons_self)) (ne_dash hx)

/-- The check digit and the digit before it may change places. -/
theorem read_of_checkSwapped (hs : AwardText s.toList) (h : CheckSwapped s t) : ∃ r, parseAwardId t = .ok r := by
  obtain ⟨g, hg, hvalid, hascii, htext⟩ := hs
  obtain ⟨p, a, b, version, hs, ht, hnodash⟩ := h
  have hleft : p ++ [a, b] = g.leftOf ∧ version = g.version := by
    refine last_separator ?_ hnodash hg.dash_not_mem
    rw [← g.text_eq, ← htext, hs]
    simp
  obtain ⟨q, x, y, hends, ⟨z, htail⟩, hcheck, hx, hy⟩ := hg.leftOf_ends
  rw [hends] at hleft
  obtain ⟨hsplit, rfl⟩ := hleft
  obtain ⟨rfl, hab⟩ := List.append_inj' hsplit rfl
  obtain ⟨rfl, hb⟩ := List.cons.inj hab
  obtain rfl := (List.cons.inj hb).1
  have hdigit : ∀ c ∈ g.leftOf, c = '-' ∨ c.isDigit = true := AwardText.isDigit hg hascii
  have hda : a.isDigit = true := (hdigit a (by rw [hends]; simp)).resolve_left (ne_dash hx)
  have hdb : b.isDigit = true := (hdigit b (by rw [hends]; simp)).resolve_left (ne_dash hy)
  obtain ⟨g', hg'⟩ : ∃ g' : Groups, g' = { g with tail := z ++ [b], check := [a] } := ⟨_, rfl⟩
  have hmatched : g'.Matched := by
    subst hg'
    refine ⟨hg.year, hg.scheme, hg.head, ⟨?_, fun c hc => ?_⟩, ⟨rfl, fun c hc => ?_⟩, hg.version⟩
    · have hlength := hg.tail.1
      rw [htail] at hlength
      simpa using hlength
    · rcases List.mem_append.mp hc with hc | hc
      · exact hg.tail.2 c (htail ▸ List.mem_append_left _ hc)
      · exact List.mem_singleton.mp hc ▸ hy
    · exact List.mem_singleton.mp hc ▸ hx
  have hleft' : g'.leftOf = p ++ [b, a] := by
    have hp : p = g.year ++ (g.scheme ++ '-' :: (g.head ++ '-' :: z)) := by
      have hboth : p ++ [a, b] = (g.year ++ (g.scheme ++ '-' :: (g.head ++ '-' :: z))) ++ [a, b] := by
        rw [← hends]
        simp [Groups.leftOf, htail, hcheck]
      exact List.append_cancel_right hboth
    subst hg'
    rw [hp]
    simp [Groups.leftOf]
  have hchecks : Checks (digitsOf g'.leftOf) := by
    have hsum := (hg.check_iff fun c hc => by rw [hcheck] at hc; exact List.mem_singleton.mp hc ▸ hdb).mp hvalid.check
    have hdigits : ∀ c d, c ≠ '-' → d ≠ '-' → digitsOf (p ++ [c, d]) = digitsOf p ++ [c, d] := by
      intro c d hc hd
      rw [digitsOf_append, digitsOf_cons hc, digitsOf_cons hd]
      rfl
    rw [hends, hdigits a b (ne_dash hx) (ne_dash hy)] at hsum
    rw [hleft', hdigits b a (ne_dash hy) (ne_dash hx)]
    exact checks_swapped_last hsum
  have hvalid' : g'.Valid := by
    refine ⟨?_, (hmatched.check_iff fun c hc => ?_).mpr hchecks, ?_⟩
    · subst hg'
      exact hvalid.scheme
    · subst hg'
      exact List.mem_singleton.mp hc ▸ hda
    · subst hg'
      exact hvalid.version
  refine ⟨_, parseAwardId_eq_ok.mpr ⟨g', hmatched, hvalid', Or.inl ?_, rfl, rfl, rfl⟩⟩
  have hversion : g'.version = g.version := by rw [hg']
  rw [ht, g'.text_eq, hleft', hversion]
  simp

/-- **A slip is rejected** unless the check digit and the digit before it changed places. -/
theorem rejected_iff (sequence year version : ℤ) (s t : String) (hs : formatAwardId sequence year version = .ok s)
    (h : Mistyped s t) : (∃ e, parseAwardId t = .error e) ↔ ¬ CheckSwapped s t := by
  have htext := formatAwardId_groups hs
  constructor
  · rintro ⟨e, he⟩ hswapped
    obtain ⟨r, hr⟩ := read_of_checkSwapped htext hswapped
    rw [hr] at he
    cases he
  · intro hswapped
    cases hparse : parseAwardId t with
    | error e => exact ⟨e, rfl⟩
    | ok r =>
      exfalso
      obtain ⟨g, hg, hvalid, hascii, htext⟩ := htext
      obtain ⟨left, left', number, hs, ht, hnodash, hslip⟩ := h
      have hleft : left = g.leftOf ∧ number = g.version := by
        refine last_separator ?_ hnodash hg.dash_not_mem
        rw [← g.text_eq, ← htext, hs]
      obtain ⟨rfl, rfl⟩ := hleft
      have hdigit : ∀ c ∈ g.leftOf, c = '-' ∨ c.isDigit = true := AwardText.isDigit hg hascii
      have hsum : Checks (digitsOf g.leftOf) := by
        refine (hg.check_iff fun c hc => ?_).mp hvalid.check
        exact (hdigit c (Groups.mem_leftOf_of_check hc)).resolve_left (ne_dash (hg.check.2 c hc))
      rcases hslip with ⟨p, a, b, q, hl, hl', ha, hb, hne⟩ | ⟨p, a, d, b, q, hl, hl', hd, ha, hb, hne, h09, h90⟩
      · rw [hl] at hdigit hsum
        have hsum' : Checks (digitsOf left') :=
          checks_of_read ht (hl' ▸ digits_replaced hdigit hb) hg.version_isDecimal hparse
        rw [hl'] at hsum'
        exact checks_digits_replaced ha hb hne hsum hsum'
      · rw [hl] at hdigit hsum
        have hsum' : Checks (digitsOf left') :=
          checks_of_read ht (hl' ▸ digits_swapped hdigit ha hb) hg.version_isDecimal hparse
        rw [hl'] at hsum'
        have hq : digitsOf q = [] := (checks_digits_swapped hd ha hb hne h09 h90 hsum).mp hsum'
        obtain ⟨rfl, rfl⟩ := swap_at_end hg hl hd hq
        exact hswapped ⟨p, a, b, g.version, by rw [hs, hl]; simp, by rw [ht, hl']; simp, hnodash⟩

theorem issued : formatAwardId 820 2026 1 = .ok "0261-4064-4676-1" := rfl

/-- A replaced check digit is rejected. -/
theorem replaced_rejected : ∃ e, parseAwardId "0261-4064-4678-1" = .error e := by
  have hslip : Mistyped "0261-4064-4676-1" "0261-4064-4678-1" := by
    refine ⟨"0261-4064-4676".toList, "0261-4064-4678".toList, ['1'], rfl, rfl, by decide, Or.inl ?_⟩
    exact ⟨"0261-4064-467".toList, '6', '8', [], rfl, rfl, rfl, rfl, by decide⟩
  refine (rejected_iff 820 2026 1 _ _ issued hslip).mpr ?_
  rintro ⟨p, a, b, version, hs, ht, hnodash⟩
  have hend : "0261-4064-4676-1".toList = "0261-4064-46".toList ++ ['7', '6'] ++ '-' :: ['1'] := rfl
  have hend' : "0261-4064-4678-1".toList = "0261-4064-46".toList ++ ['7', '8'] ++ '-' :: ['1'] := rfl
  have hleft := (last_separator (l := p ++ [a, b]) (by rw [← hend, hs]; simp) hnodash (by decide)).1
  have hleft' := (last_separator (l := p ++ [b, a]) (by rw [← hend', ht]; simp) hnodash (by decide)).1
  obtain ⟨-, hab⟩ := List.append_inj' hleft rfl
  obtain ⟨-, hba⟩ := List.append_inj' hleft' rfl
  obtain ⟨rfl, -⟩ := List.cons.inj hab
  exact absurd (List.cons.inj (List.cons.inj hba).2).1 (by decide)

/-- The check digit 6 and the digit 7 before it may change places. -/
theorem swap_accepted : ¬ ∀ (sequence year version : ℤ) (s t : String), formatAwardId sequence year version = .ok s →
    Mistyped s t → ∃ e, parseAwardId t = .error e := by
  intro h
  have hslip : Mistyped "0261-4064-4676-1" "0261-4064-4667-1" := by
    refine ⟨"0261-4064-4676".toList, "0261-4064-4667".toList, ['1'], rfl, rfl, by decide, Or.inr ?_⟩
    exact ⟨"0261-4064-46".toList, '7', [], '6', [], rfl, rfl, nofun, rfl, rfl, by decide, by decide, by decide⟩
  obtain ⟨e, he⟩ := h 820 2026 1 _ _ issued hslip
  obtain ⟨r, hr⟩ := read_of_checkSwapped (t := "0261-4064-4667-1") (formatAwardId_groups issued)
    ⟨"0261-4064-46".toList, '7', '6', ['1'], rfl, rfl, by decide⟩
  rw [hr] at he
  cases he

end Text

end Waldur.Proposals
