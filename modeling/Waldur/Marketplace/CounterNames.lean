import Mathlib
import Waldur.Lib.PythonDigits
import Waldur.Lib.Runs

/-!
# Marketplace.CounterNames — user names that end in a counter

A new account of an offering is named after the last one, in the order of the text, whose name starts as its own
does: its last digits are read as a number, and the next number is written.  A name that starts as another name does
is read by mistake.  Names without digits are given once each in every run exactly if no full name goes on from
another one (`fullName_unique_iff`); the names with one beginning, of the anonymized accounts, always are
(`counter_unique`).
-/

namespace Waldur.Marketplace.CounterNames

open PythonText Runs

/-! ## The code -/

abbrev Text := List Char

/-- The lookup `istartswith`. -/
def istartswith (stem name : Text) : Bool := (stem.map Char.toLower).isPrefixOf (name.map Char.toLower)

/-- `int(name[-w:])`, of the names that are made here, which end in digits. -/
def lastNumber (w : ℕ) (name : Text) : Option ℕ :=
  if name.drop (name.length - w) ≠ [] ∧ (name.drop (name.length - w)).all Char.isDigit then
    some (readDigits (name.drop (name.length - w)))
  else none

/-- The highest name that starts with the stem, plus one; `none` if its number is not read. -/
def nextUsername (w : ℕ) (separator stem : Text) (names : List Text) : Option Text :=
  match (names.filter (istartswith stem)).max? with
  | none => some (stem ++ separator ++ zeroPadded w 0)
  | some last => (lastNumber w last).map fun n => stem ++ separator ++ zeroPadded w (n + 1)

/-- `USERNAME_POSTFIX_LENGTH`. -/
def usernamePostfixLength : ℕ := 2

/-- `USERNAME_ANONYMIZED_POSTFIX_LENGTH`. -/
def usernameAnonymizedPostfixLength : ℕ := 5

/-- A user by what `sanitize_name` leaves of the first and the last name. -/
structure User where
  firstName : Text
  lastName : Text

/-- `username_raw`. -/
def User.usernameRaw (user : User) : Text := user.firstName ++ '_' :: user.lastName

/-- `create_username_from_full_name`, among the names of an offering. -/
def createUsernameFromFullName (user : User) (names : List Text) : Option Text :=
  nextUsername usernamePostfixLength ['_'] user.usernameRaw names

/-- `_next_counter_username`. -/
def nextCounterUsername (stem : Text) (names : List Text) : Option Text :=
  nextUsername usernameAnonymizedPostfixLength [] stem names

/-- `OfferingUser`, of one offering. -/
structure Account where
  id : ℕ
  username : Text

/-- An account is created for somebody who has none, or deleted. -/
inductive Op (ν : Type)
  | create (id : ℕ) (name : ν)
  | delete (id : ℕ)

/-- One step: an account whose name raises a `ValueError` is not created. -/
def step {ν : Type} (generate : ν → List Text → Option Text) (accounts : List Account) : Op ν → List Account
  | .create id name =>
    if accounts.any (·.id = id) then accounts
    else
      match generate name (accounts.map Account.username) with
      | none => accounts
      | some username => accounts ++ [⟨id, username⟩]
  | .delete id => accounts.filter (·.id ≠ id)

/-! ## Numbered names -/

section Numbered

variable {w n m : ℕ} {separator stem : Text} {names : List Text}

theorem istartswith_iff {name : Text} :
    istartswith stem name = true ↔ stem.map Char.toLower <+: name.map Char.toLower := List.isPrefixOf_iff_prefix

theorem istartswith_append (stem rest : Text) : istartswith stem (stem ++ rest) = true := by
  rw [istartswith_iff, List.map_append]
  exact List.prefix_append _ _

/-- The number is read back. -/
theorem lastNumber_numbered (hw : 0 < w) (hn : n < 10 ^ w) (start : Text) :
    lastNumber w (start ++ zeroPadded w n) = some n := by
  have hlength := length_zeroPadded hw hn
  have hdrop : (start ++ zeroPadded w n).drop ((start ++ zeroPadded w n).length - w) = zeroPadded w n := by
    rw [List.length_append, hlength, Nat.add_sub_cancel]
    exact List.drop_left
  unfold lastNumber
  rw [hdrop, if_pos, readDigits_zeroPadded]
  refine ⟨fun hnil => ?_, List.all_eq_true.mpr isDigit_zeroPadded⟩
  rw [hnil, List.length_nil] at hlength
  omega

theorem append_lt_append_iff {l l' : Text} : ∀ {start : Text}, start ++ l < start ++ l' ↔ l < l'
  | [] => Iff.rfl
  | c :: start => by
    refine List.cons_lt_cons_iff.trans ?_
    rw [or_iff_right (lt_irrefl c), and_iff_right rfl]
    exact append_lt_append_iff

/-- Names of one stem are in the order of their numbers. -/
theorem numbered_lt_iff (hw : 0 < w) (hn : n < 10 ^ w) (hm : m < 10 ^ w) (start : Text) :
    start ++ zeroPadded w n < start ++ zeroPadded w m ↔ n < m := by
  have hlength : (zeroPadded w n).length = (zeroPadded w m).length :=
    (length_zeroPadded hw hn).trans (length_zeroPadded hw hm).symm
  have hdigits := digits_lt_iff hlength isDigit_zeroPadded isDigit_zeroPadded
  rw [readDigits_zeroPadded, readDigits_zeroPadded] at hdigits
  exact append_lt_append_iff.trans hdigits

variable {ν : Type} {stemOf : ν → Text} {family : Set ν} {made : Text → ℕ}

/-- **Names of a family**: different ones, and each with a number below that of the accounts made so far. -/
structure Numbered (w : ℕ) (separator : Text) (stemOf : ν → Text) (family : Set ν) (made : Text → ℕ)
    (names : List Text) : Prop where
  numbered : ∀ name ∈ names, ∃ p ∈ family, ∃ n < made (stemOf p), name = stemOf p ++ separator ++ zeroPadded w n
  nodup : names.Nodup

/-- No name of a family starts as another one does. -/
def Separate (w : ℕ) (separator : Text) (stemOf : ν → Text) (family : Set ν) : Prop :=
  ∀ p ∈ family, ∀ p' ∈ family, ∀ n, istartswith (stemOf p) (stemOf p' ++ separator ++ zeroPadded w n) = true →
    stemOf p = stemOf p'

/-- **The next name is new**, while the numbers have their width. -/
theorem Numbered.next (h : Numbered w separator stemOf family made names) (hsep : Separate w separator stemOf family)
    (hw : 0 < w) (hmade : ∀ p ∈ family, made (stemOf p) ≤ 10 ^ w) {p : ν} (hp : p ∈ family)
    (hroom : made (stemOf p) < 10 ^ w) : ∃ n ≤ made (stemOf p),
      nextUsername w separator (stemOf p) names = some (stemOf p ++ separator ++ zeroPadded w n) ∧
        stemOf p ++ separator ++ zeroPadded w n ∉ names := by
  have hfound (n : ℕ) (hmem : stemOf p ++ separator ++ zeroPadded w n ∈ names) :
      stemOf p ++ separator ++ zeroPadded w n ∈ names.filter (istartswith (stemOf p)) := by
    refine List.mem_filter.mpr ⟨hmem, ?_⟩
    rw [List.append_assoc]
    exact istartswith_append _ _
  unfold nextUsername
  cases hmax : (names.filter (istartswith (stemOf p))).max? with
  | none =>
    refine ⟨0, Nat.zero_le _, rfl, fun hmem => ?_⟩
    have hnil := List.max?_eq_none_iff.mp hmax
    exact List.not_mem_nil (hnil ▸ hfound 0 hmem)
  | some last =>
    obtain ⟨hlast, hgreatest⟩ := List.max?_eq_some_iff.mp hmax
    obtain ⟨hmem, hstart⟩ := List.mem_filter.mp hlast
    obtain ⟨p', hp', n, hn, rfl⟩ := h.numbered last hmem
    have hstem := hsep p hp p' hp' n hstart
    rw [← hstem] at hn hgreatest
    dsimp only
    rw [← hstem, lastNumber_numbered hw (hn.trans_le (hmade p hp)), Option.map_some]
    refine ⟨n + 1, hn, rfl, fun hmem' => ?_⟩
    have hle := hgreatest _ (hfound (n + 1) hmem')
    have hlt := (numbered_lt_iff hw (hn.trans_le (hmade p hp)) (Nat.lt_of_le_of_lt hn hroom)
      (stemOf p ++ separator)).mpr (Nat.lt_succ_self n)
    exact absurd hle (not_le.mpr hlt)

/-! ## Runs -/

/-- The names of a run are of a family. -/
def Op.Names (family : Set ν) : Op ν → Prop
  | .create _ name => name ∈ family
  | .delete _ => True

/-- Whether an account is to be named with a stem. -/
def Op.creates (stemOf : ν → Text) (stem : Text) : Op ν → Bool
  | .create _ name => stemOf name = stem
  | .delete _ => false

/-- How many accounts were to be named with a stem. -/
def created (stemOf : ν → Text) (ops : List (Op ν)) (stem : Text) : ℕ := ops.countP (Op.creates stemOf stem)

theorem Numbered.mono {made' : Text → ℕ} {names' : List Text} (h : Numbered w separator stemOf family made names)
    (hnames : names'.Sublist names) (hmade : ∀ stem, made stem ≤ made' stem) :
    Numbered w separator stemOf family made' names' := by
  refine ⟨fun name hname => ?_, h.nodup.sublist hnames⟩
  obtain ⟨p, hp, n, hn, heq⟩ := h.numbered name (hnames.subset hname)
  exact ⟨p, hp, n, hn.trans_le (hmade _), heq⟩

variable {accounts : List Account} {generate : ν → List Text → Option Text}

theorem step_create {id : ℕ} {p : ν} : step generate accounts (.create id p) =
    if accounts.any (·.id = id) then accounts
    else
      match generate p (accounts.map Account.username) with
      | none => accounts
      | some username => accounts ++ [⟨id, username⟩] := rfl

/-- An account of somebody who has none. -/
theorem step_create_new {id : ℕ} {p : ν} {username : Text} (hnew : ∀ account ∈ accounts, account.id ≠ id)
    (h : generate p (accounts.map Account.username) = some username) :
    step generate accounts (.create id p) = accounts ++ [⟨id, username⟩] := by
  have hany : ¬ accounts.any (·.id = id) = true := by
    rw [List.any_eq_true]
    rintro ⟨account, haccount, hid⟩
    exact hnew account haccount (of_decide_eq_true hid)
  rw [step_create, if_neg hany, h]

/-- One step. -/
theorem Numbered.step (h : Numbered w separator stemOf family made (accounts.map Account.username))
    (hgenerate : ∀ p names, generate p names = nextUsername w separator (stemOf p) names)
    (hsep : Separate w separator stemOf family) (hw : 0 < w) {op : Op ν} (hop : op.Names family)
    (hroom : ∀ stem, made stem + created stemOf [op] stem ≤ 10 ^ w) :
    Numbered w separator stemOf family (fun stem => made stem + created stemOf [op] stem)
      ((CounterNames.step generate accounts op).map Account.username) := by
  have hmade : ∀ stem, made stem ≤ made stem + created stemOf [op] stem := fun _ => Nat.le_add_right _ _
  cases op with
  | delete id => exact h.mono (List.filter_sublist.map _) hmade
  | create id p =>
    have hone : created stemOf [.create id p] (stemOf p) = 1 := by
      have hcreates : Op.creates stemOf (stemOf p) (.create id p) = true := decide_eq_true rfl
      unfold created
      rw [List.countP_cons_of_pos hcreates, List.countP_nil]
    obtain ⟨n, hn, hnext, hnew⟩ := h.next hsep hw (fun p _ => (hmade _).trans (hroom _)) hop (by
      have := hroom (stemOf p)
      omega)
    rw [step_create, hgenerate, hnext]
    split
    · exact h.mono (List.Sublist.refl _) hmade
    · dsimp only
      rw [List.map_append, List.map_singleton]
      have hold := h.mono (List.Sublist.refl _) hmade
      refine ⟨fun name hname => ?_, ?_⟩
      · rcases List.mem_append.mp hname with hname | hname
        · exact hold.numbered name hname
        · exact ⟨p, hop, n, by rw [hone]; omega, List.mem_singleton.mp hname⟩
      · rw [List.nodup_append_comm, List.singleton_append, List.nodup_cons]
        exact ⟨hnew, h.nodup⟩

/-- **A run.** -/
theorem Numbered.run (hgenerate : ∀ p names, generate p names = nextUsername w separator (stemOf p) names)
    (hsep : Separate w separator stemOf family) (hw : 0 < w) : ∀ (ops : List (Op ν)) {accounts : List Account}
    {made : Text → ℕ}, Numbered w separator stemOf family made (accounts.map Account.username) →
    (∀ op ∈ ops, op.Names family) → (∀ stem, made stem + created stemOf ops stem ≤ 10 ^ w) →
      ((Runs.run (CounterNames.step generate) accounts ops).map Account.username).Nodup
  | [], _, _, h, _, _ => h.nodup
  | op :: ops, accounts, made, h, hops, hroom => by
    have hsplit (stem : Text) :
        created stemOf ([op] ++ ops) stem = created stemOf [op] stem + created stemOf ops stem :=
      List.countP_append
    rw [List.singleton_append] at hsplit
    refine Numbered.run hgenerate hsep hw ops (h.step hgenerate hsep hw (hops op List.mem_cons_self) fun stem => ?_)
      (fun op' hop' => hops op' (List.mem_cons_of_mem _ hop')) fun stem => ?_
    · have := hroom stem
      rw [hsplit] at this
      omega
    · have := hroom stem
      rw [hsplit] at this
      omega

theorem numbered_nil : Numbered w separator stemOf family (fun _ => 0) [] :=
  ⟨fun _ h => absurd h List.not_mem_nil, List.nodup_nil⟩

/-- **The names of anonymized accounts are given once each**, whatever accounts are created and deleted, as long as
there were no more than the digits can count. -/
theorem counter_unique (stem : Text) (ops : List (Op Unit))
    (hcount : created (fun _ => stem) ops stem ≤ 10 ^ usernameAnonymizedPostfixLength) :
    ((run (step fun _ => nextCounterUsername stem) [] ops).map Account.username).Nodup := by
  have hstart : Numbered usernameAnonymizedPostfixLength [] (fun _ : Unit => stem) Set.univ (fun _ => 0)
      (([] : List Account).map Account.username) := numbered_nil
  refine Numbered.run (fun _ _ => rfl) (fun _ _ _ _ _ _ => rfl) (by decide) ops hstart (fun op _ => ?_) fun stem' => ?_
  · cases op <;> trivial
  · by_cases hstem : stem = stem'
    · subst hstem
      exact (Nat.zero_add _).trans_le hcount
    · have hnone : created (fun _ : Unit => stem) ops stem' = 0 := by
        unfold created
        rw [List.countP_eq_zero]
        intro op _
        cases op with
        | create id name => exact fun h => hstem (of_decide_eq_true h)
        | delete id => exact nofun
      rw [hnone]
      exact Nat.zero_le _

/-- An account that is deleted, and whose number is given again. -/
theorem counter_unique_again : ((run (step fun _ => nextCounterUsername "waldur_".toList) []
      [.create 1 (), .create 2 (), .delete 2, .create 3 ()]).map Account.username).Nodup :=
  counter_unique "waldur_".toList [.create 1 (), .create 2 (), .delete 2, .create 3 ()] (by decide)

end Numbered

/-! ## Full names -/

/-- A letter that is not a capital, or an underscore. -/
def IsPlain (c : Char) : Prop := c = '_' ∨ 97 ≤ c.toNat ∧ c.toNat ≤ 122

instance (c : Char) : Decidable (IsPlain c) := inferInstanceAs (Decidable (_ ∨ _ ∧ _))

theorem toLower_of_small {c : Char} (h : c.toNat < 65 ∨ 90 < c.toNat) : c.toLower = c := by
  unfold Char.toLower
  refine dif_neg fun hupper => ?_
  have hlow : 65 ≤ c.toNat := UInt32.le_iff_toNat_le.mp hupper.1
  have hhigh : c.toNat ≤ 90 := UInt32.le_iff_toNat_le.mp hupper.2
  omega

theorem toNat_of_isPlain {c : Char} (h : IsPlain c) : 95 ≤ c.toNat := by
  rcases h with rfl | ⟨h, -⟩
  · decide
  · omega

theorem map_toLower_plain {name : Text} (h : ∀ c ∈ name, IsPlain c) : name.map Char.toLower = name :=
  (List.map_congr_left fun c hc => toLower_of_small (Or.inr (by have := toNat_of_isPlain (h c hc); omega))).trans
    (List.map_id name)

theorem map_toLower_digits {l : Text} (h : ∀ c ∈ l, c.isDigit = true) : l.map Char.toLower = l :=
  (List.map_congr_left fun c hc => toLower_of_small (Or.inl (by have := (isDigit_iff.mp (h c hc)).2; omega))).trans
    (List.map_id l)

variable {users : Set User} {user user' : User}

/-- The names of plain users are compared as they are. -/
theorem istartswith_fullName (h : ∀ c ∈ user.usernameRaw, IsPlain c) (h' : ∀ c ∈ user'.usernameRaw, IsPlain c)
    {w n : ℕ} : istartswith user.usernameRaw (user'.usernameRaw ++ ['_'] ++ zeroPadded w n) = true ↔
      user.usernameRaw <+: user'.usernameRaw ++ ['_'] ++ zeroPadded w n := by
  rw [istartswith_iff, List.map_append, List.map_append, map_toLower_plain h, map_toLower_plain h',
    map_toLower_digits isDigit_zeroPadded]
  rfl

/-- **No full name goes on from another one.** -/
def Apart (users : Set User) : Prop :=
  ∀ user ∈ users, ∀ user' ∈ users, user.usernameRaw <+: user'.usernameRaw → user.usernameRaw = user'.usernameRaw

theorem separate_of_apart (hplain : ∀ user ∈ users, ∀ c ∈ user.usernameRaw, IsPlain c) (hapart : Apart users) (w : ℕ) :
    Separate w ['_'] User.usernameRaw users := by
  intro user huser user' huser' n hstart
  have hprefix := (istartswith_fullName (hplain user huser) (hplain user' huser')).mp hstart
  have hown : user'.usernameRaw <+: user'.usernameRaw ++ ['_'] ++ zeroPadded w n := by
    rw [List.append_assoc]
    exact List.prefix_append _ _
  rcases List.prefix_or_prefix_of_prefix hprefix hown with h | h
  · exact hapart user huser user' huser' h
  · exact (hapart user' huser' user huser h).symm

/-- A name that goes on from another one comes after all its numbers. -/
theorem numbered_lt_of_prefix (hplain : ∀ c ∈ user'.usernameRaw, IsPlain c)
    (h : user.usernameRaw <+: user'.usernameRaw) (hne : user.usernameRaw ≠ user'.usernameRaw) (d d' : Char)
    (hd : d.isDigit = true) (rest rest' : Text) :
    user.usernameRaw ++ ['_'] ++ d :: rest < user'.usernameRaw ++ ['_'] ++ d' :: rest' := by
  obtain ⟨more, hmore⟩ := h
  have hdigit := (isDigit_iff.mp hd).2
  have hless {c : Char} (hc : IsPlain c) : d < c := by
    have := toNat_of_isPlain hc
    rw [Char.lt_def, UInt32.lt_iff_toNat_lt]
    change d.toNat < c.toNat
    omega
  rw [← hmore, List.append_assoc, List.append_assoc, List.append_assoc, append_lt_append_iff]
  have hplain' : ∀ c ∈ more, IsPlain c := fun c hc => hplain c (hmore ▸ List.mem_append_right _ hc)
  cases more with
  | nil => exact absurd (by rw [← hmore, List.append_nil]) hne
  | cons c more =>
    refine List.cons_lt_cons_iff.mpr ?_
    rcases hplain' c List.mem_cons_self with rfl | hletter
    · refine Or.inr ⟨rfl, ?_⟩
      cases more with
      | nil => exact List.cons_lt_cons_iff.mpr (Or.inl (hless (Or.inl rfl)))
      | cons c' more =>
        exact List.cons_lt_cons_iff.mpr
          (Or.inl (hless (hplain' c' (List.mem_cons_of_mem _ List.mem_cons_self))))
    · refine Or.inl ?_
      rw [Char.lt_def, UInt32.lt_iff_toNat_lt]
      change 95 < c.toNat
      omega

/-- Two accounts that are created after one whose name goes on from theirs have the same name. -/
theorem same_name (hplain : ∀ c ∈ user.usernameRaw, IsPlain c) (hplain' : ∀ c ∈ user'.usernameRaw, IsPlain c)
    (h : user.usernameRaw <+: user'.usernameRaw) (hne : user.usernameRaw ≠ user'.usernameRaw) :
    (run (step createUsernameFromFullName) [] [.create 0 user', .create 1 user, .create 2 user]).map Account.username =
      [user'.usernameRaw ++ ['_'] ++ ['0', '0'], user.usernameRaw ++ ['_'] ++ ['0', '1'],
        user.usernameRaw ++ ['_'] ++ ['0', '1']] := by
  have hstart : istartswith user.usernameRaw (user'.usernameRaw ++ ['_'] ++ ['0', '0']) = true := by
    refine (istartswith_fullName hplain hplain' (w := 2) (n := 0)).mpr (h.trans ?_)
    rw [List.append_assoc]
    exact List.prefix_append _ _
  have hself : istartswith user.usernameRaw (user.usernameRaw ++ ['_'] ++ ['0', '1']) = true := by
    rw [List.append_assoc]
    exact istartswith_append _ _
  have hread : lastNumber 2 (user'.usernameRaw ++ ['_'] ++ ['0', '0']) = some 0 :=
    lastNumber_numbered (w := 2) (n := 0) (by decide) (by decide) _
  have hfirst : createUsernameFromFullName user' [] = some (user'.usernameRaw ++ ['_'] ++ ['0', '0']) := rfl
  have hsecond : createUsernameFromFullName user [user'.usernameRaw ++ ['_'] ++ ['0', '0']] =
      some (user.usernameRaw ++ ['_'] ++ ['0', '1']) := by
    unfold createUsernameFromFullName nextUsername
    rw [List.filter_cons_of_pos hstart, List.filter_nil, List.max?_singleton]
    dsimp only [usernamePostfixLength]
    rw [hread]
    rfl
  have hthird : createUsernameFromFullName user [user'.usernameRaw ++ ['_'] ++ ['0', '0'],
      user.usernameRaw ++ ['_'] ++ ['0', '1']] = some (user.usernameRaw ++ ['_'] ++ ['0', '1']) := by
    have hlt := numbered_lt_of_prefix hplain' h hne '0' '0' rfl ['1'] ['0']
    have hmax : ([user'.usernameRaw ++ ['_'] ++ ['0', '0'], user.usernameRaw ++ ['_'] ++ ['0', '1']] : List Text).max? =
        some (user'.usernameRaw ++ ['_'] ++ ['0', '0']) := by
      refine List.max?_eq_some_iff.mpr ⟨List.mem_cons_self, fun name hname => ?_⟩
      rcases List.mem_cons.mp hname with rfl | hname
      · exact le_refl _
      · rw [List.mem_singleton.mp hname]
        exact hlt.le
    unfold createUsernameFromFullName nextUsername
    rw [List.filter_cons_of_pos hstart, List.filter_cons_of_pos hself, List.filter_nil, hmax]
    dsimp only [usernamePostfixLength]
    rw [hread]
    rfl
  have hnone : ∀ account ∈ ([] : List Account), account.id ≠ 0 := fun _ h => absurd h List.not_mem_nil
  rw [run_cons, step_create_new hnone hfirst, List.nil_append, run_cons, step_create_new (by simp) hsecond,
    List.singleton_append, run_cons, step_create_new (by simp) hthird]
  rfl

/-- **Full names are given once each exactly if none goes on from another one**: of users without digits and capitals
in their names, in all runs with no more accounts of a name than two digits can count. -/
theorem fullName_unique_iff (users : Set User) (hplain : ∀ user ∈ users, ∀ c ∈ user.usernameRaw, IsPlain c) :
    (∀ ops : List (Op User), (∀ op ∈ ops, op.Names users) →
      (∀ stem, created User.usernameRaw ops stem ≤ 10 ^ usernamePostfixLength) →
        ((run (step createUsernameFromFullName) [] ops).map Account.username).Nodup) ↔ Apart users := by
  constructor
  · intro h user huser user' huser' hprefix
    by_contra hne
    have hnames := same_name (hplain user huser) (hplain user' huser') hprefix hne
    have hnodup := h [.create 0 user', .create 1 user, .create 2 user] (fun op hop => ?_) fun stem => ?_
    · rw [hnames, List.nodup_cons, List.nodup_cons] at hnodup
      exact hnodup.2.1 List.mem_cons_self
    · rcases List.mem_cons.mp hop with rfl | hop
      · exact huser'
      rcases List.mem_cons.mp hop with rfl | hop
      · exact huser
      · obtain rfl := List.mem_singleton.mp hop
        exact huser
    · exact List.countP_le_length.trans (show 3 ≤ 10 ^ 2 by decide)
  · intro hapart ops hops hcount
    refine Numbered.run (fun _ _ => rfl) (separate_of_apart hplain hapart usernamePostfixLength) (by decide) ops
      numbered_nil hops fun stem => ?_
    exact (Nat.zero_add _).trans_le (hcount stem)

def smith : User := ⟨['j', 'o', 'h', 'n'], ['s', 'm', 'i', 't', 'h']⟩

def smithson : User := ⟨['j', 'o', 'h', 'n'], ['s', 'm', 'i', 't', 'h', 's', 'o', 'n']⟩

theorem smiths_plain : ∀ user ∈ ({smith, smithson} : Set User), ∀ c ∈ user.usernameRaw, IsPlain c := by
  rintro user (rfl | rfl)
  · simp [smith, User.usernameRaw, IsPlain]
  · simp [smithson, User.usernameRaw, IsPlain]

theorem fullName_unique_smiths :
    (∀ ops : List (Op User), (∀ op ∈ ops, op.Names {smith, smithson}) →
      (∀ stem, created User.usernameRaw ops stem ≤ 10 ^ usernamePostfixLength) →
        ((run (step createUsernameFromFullName) [] ops).map Account.username).Nodup) ↔ Apart {smith, smithson} :=
  fullName_unique_iff {smith, smithson} smiths_plain

end Waldur.Marketplace.CounterNames
