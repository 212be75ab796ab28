import Fleet.SocketAddress
import Mathlib.Data.List.Basic

/-!
# What socket addresses look like

An address is written as four octets and a port, or as an IPv6 address in brackets, with a zone if
need be, and a port.  An IPv6 address has eight groups, or at most seven with two colons for the
groups of zeros that are left out; its last two groups may be written as four octets.  Reading takes
exactly the texts of this form.

A reader takes as much as it can, so what it takes depends on what follows: a number ends where no
digit comes next, and groups end at two colons, at a zone or at the bracket.

## Main definitions

* `Numeral`, `Octet`, `Quad`, `Group`, `Groups`, `Ipv6`, `Zone` — the parts of an address.
* `Written` — the texts of an address.

## Main statements

* `number_eq_some_iff`, `ipv4_eq_some_iff` — what the readers of numbers and octets take.
* `groups_sound`, `groups_complete` — what the reader of groups takes.
* `parse?_eq_some_iff` — an address is read from its texts and from no others.
-/

namespace Fleet.SocketAddress

variable {s cs rest : List Char} {first ended : Bool} {gs : List Nat}

/-! ### Numbers -/

/-- A run of digits that stands for a number up to a bound. -/
structure Numeral (base most : Nat) (cs : List Char) (n : Nat) : Prop where
  ne_nil : cs ≠ []
  value : Digit.number? base cs = some n
  le : n ≤ most

/-- No digit comes next. -/
def EndsNumber (base : Nat) (rest : List Char) : Prop :=
  ∀ c ∈ rest.head?, Digit.value? base c = none

/-- The number of digits that follow a number. -/
def extend? (base : Nat) (n : Nat) (cs : List Char) : Option Nat :=
  cs.foldlM (fun n c => (Digit.value? base c).map (base * n + ·)) n

theorem extend?_cons (base n : Nat) (c : Char) (cs : List Char) :
    extend? base n (c :: cs) =
      (Digit.value? base c).bind fun d => extend? base (base * n + d) cs := by
  simp only [extend?, List.foldlM_cons, Option.bind_eq_bind]
  cases Digit.value? base c <;> rfl

/-- A run of digits is taken as a whole. -/
theorem spanNumber_eq_iff {base n len m k : Nat} :
    spanNumber base s n len = (m, k, rest) ↔
      ∃ cs, s = cs ++ rest ∧ extend? base n cs = some m ∧ k = len + cs.length ∧
        EndsNumber base rest := by
  induction s generalizing n len with
  | nil =>
    constructor
    · intro h
      cases h
      exact ⟨[], rfl, rfl, rfl, by simp [EndsNumber]⟩
    · rintro ⟨cs, hcs, hvalue, rfl, -⟩
      obtain ⟨rfl, rfl⟩ := List.append_eq_nil_iff.1 hcs.symm
      cases hvalue
      rfl
  | cons c s ih =>
    rw [spanNumber]
    cases hc : Digit.value? base c with
    | none =>
      constructor
      · intro h
        cases h
        exact ⟨[], rfl, rfl, rfl, by simp [EndsNumber, hc]⟩
      · rintro ⟨cs, hcs, hvalue, rfl, -⟩
        cases cs with
        | nil =>
          cases hvalue
          rw [hcs]
          rfl
        | cons d cs =>
          obtain ⟨rfl, -⟩ := List.cons.inj hcs
          simp [extend?_cons, hc] at hvalue
    | some d =>
      simp only [ih]
      constructor
      · rintro ⟨cs, rfl, hvalue, rfl, hends⟩
        refine ⟨c :: cs, rfl, ?_, ?_, hends⟩
        · rw [extend?_cons, hc]
          exact hvalue
        · rw [List.length_cons]
          omega
      · rintro ⟨cs, hcs, hvalue, rfl, hends⟩
        cases cs with
        | nil =>
          have hrest : rest = c :: s := hcs.symm
          have hnone : Digit.value? base c = none := hends c (by simp [hrest])
          simp [hc] at hnone
        | cons c' cs =>
          obtain ⟨rfl, rfl⟩ := List.cons.inj hcs
          rw [extend?_cons, hc] at hvalue
          refine ⟨cs, rfl, hvalue, ?_, hends⟩
          rw [List.length_cons]
          omega

/-- A run of digits is refused if there are none, if they are too many or stand for too great a
number, or if zeros lead it where they must not. -/
theorem number_of_spanNumber {base most n len : Nat} {width : Option Nat} {leadingZeros : Bool}
    (h : spanNumber base s 0 0 = (n, len, rest)) :
    number base most width leadingZeros s =
      if len ≠ 0 ∧ (∀ w ∈ width, len ≤ w) ∧ n ≤ most ∧
          (leadingZeros = false → s.head? = some '0' → len ≤ 1) then some (n, rest)
      else none := by
  have hnumber : number base most width leadingZeros s =
      if len = 0 || width.any (· < len) || most < n ||
        (!leadingZeros && s.head? == some '0' && 1 < len) then none else some (n, rest) := by
    cases width <;> simp only [number, h] <;> rfl
  rw [hnumber, ← ite_not]
  refine ite_congr (propext ?_) (fun _ => rfl) fun _ => rfl
  cases width <;> simp [and_assoc]

/-- What the reader of numbers takes. -/
theorem number_eq_some_iff {base most n : Nat} {width : Option Nat} {leadingZeros : Bool} :
    number base most width leadingZeros s = some (n, rest) ↔
      ∃ cs, s = cs ++ rest ∧ Numeral base most cs n ∧ (∀ w ∈ width, cs.length ≤ w) ∧
        (leadingZeros = false → cs.head? = some '0' → cs.length ≤ 1) ∧
        EndsNumber base rest := by
  constructor
  · intro h
    obtain ⟨m, len, rest', hspan⟩ : ∃ m len rest', spanNumber base s 0 0 = (m, len, rest') :=
      ⟨_, _, _, rfl⟩
    rw [number_of_spanNumber hspan, Option.ite_none_right_eq_some] at h
    obtain ⟨⟨hlen, hwidth, hmost, hzeros⟩, heq⟩ := h
    cases heq
    obtain ⟨cs, rfl, hvalue, rfl, hends⟩ := spanNumber_eq_iff.1 hspan
    rw [Nat.zero_add] at hlen hwidth hzeros
    have hne : cs ≠ [] := List.ne_nil_of_length_pos (Nat.pos_of_ne_zero hlen)
    rw [List.head?_append_of_ne_nil _ hne] at hzeros
    exact ⟨cs, rfl, ⟨hne, hvalue, hmost⟩, hwidth, hzeros, hends⟩
  · rintro ⟨cs, rfl, hnumeral, hwidth, hzeros, hends⟩
    have hspan : spanNumber base (cs ++ rest) 0 0 = (n, cs.length, rest) :=
      spanNumber_eq_iff.2 ⟨cs, rfl, hnumeral.value, (Nat.zero_add _).symm, hends⟩
    rw [number_of_spanNumber hspan, if_pos]
    rw [List.head?_append_of_ne_nil _ hnumeral.ne_nil]
    exact ⟨mt List.length_eq_zero_iff.1 hnumeral.ne_nil, hwidth, hnumeral.le, hzeros⟩

/-- Every character of a numeral is a digit. -/
theorem Numeral.isSome_value? {base most n : Nat} (h : Numeral base most cs n) {c : Char}
    (hc : c ∈ cs) : (Digit.value? base c).isSome = true := by
  have hall : ∀ m, (extend? base m cs).isSome = true → (Digit.value? base c).isSome = true := by
    clear h
    induction cs with
    | nil => cases hc
    | cons d cs ih =>
      intro m hm
      rw [extend?_cons] at hm
      cases hd : Digit.value? base d with
      | none => simp [hd] at hm
      | some v =>
        rcases List.mem_cons.1 hc with rfl | hc
        · rw [hd]
          rfl
        · rw [hd, Option.bind_some] at hm
          exact ih hc _ hm
  refine hall 0 ?_
  rw [show extend? base 0 cs = some n from h.value]
  rfl

/-- A character that ends a numeral is not in it. -/
theorem Numeral.not_mem {base most n : Nat} (h : Numeral base most cs n) {c : Char}
    (hends : EndsNumber base (c :: rest)) : c ∉ cs := by
  intro hc
  have hdigit := h.isSome_value? hc
  rw [hends c rfl] at hdigit
  cases hdigit

/-! ### Octets -/

/-- An octet has up to three digits, none of them a leading zero. -/
structure Octet (cs : List Char) (n : Nat) : Prop extends Numeral 10 255 cs n where
  length_le : cs.length ≤ 3
  noLeadingZero : cs.head? = some '0' → cs.length ≤ 1

theorem octet_eq_some_iff {n : Nat} :
    octet s = some (n, rest) ↔ ∃ cs, s = cs ++ rest ∧ Octet cs n ∧ EndsNumber 10 rest := by
  rw [octet, number_eq_some_iff]
  constructor
  · rintro ⟨cs, hs, hnumeral, hwidth, hzeros, hends⟩
    exact ⟨cs, hs, ⟨hnumeral, hwidth 3 rfl, hzeros rfl⟩, hends⟩
  · rintro ⟨cs, hs, hoctet, hends⟩
    refine ⟨cs, hs, hoctet.toNumeral, ?_, fun _ => hoctet.noLeadingZero, hends⟩
    rintro w hw
    cases hw
    exact hoctet.length_le

theorem char_eq_some_iff {c : Char} {u : Unit} : char c s = some (u, rest) ↔ s = c :: rest := by
  cases s with
  | nil => simp [char]
  | cons d s =>
    by_cases h : c = d
    · simp [char, h]
    · simp [char, h, Ne.symm h]

/-- Four octets with dots between them. -/
inductive Quad : List Char → List Nat → Prop
  | mk {a b c d : List Char} {i j k l : Nat} (ha : Octet a i) (hb : Octet b j) (hc : Octet c k)
      (hd : Octet d l) : Quad (a ++ '.' :: (b ++ '.' :: (c ++ '.' :: d))) [i, j, k, l]

theorem endsNumber_cons {base : Nat} {c : Char} (h : Digit.value? base c = none) :
    EndsNumber base (c :: rest) := by
  rintro d hd
  cases hd
  exact h

theorem ipv4_eq_some_iff {o : List Nat} :
    ipv4 s = some (o, rest) ↔ ∃ cs, s = cs ++ rest ∧ Quad cs o ∧ EndsNumber 10 rest := by
  have hdot : ∀ rest, EndsNumber 10 ('.' :: rest) := fun rest => endsNumber_cons (by decide)
  simp only [ipv4, Option.bind_eq_bind, Option.bind_eq_some_iff, Prod.exists, char_eq_some_iff,
    octet_eq_some_iff]
  constructor
  · rintro ⟨i, _, ⟨a, rfl, ha, -⟩, -, _, rfl, j, _, ⟨b, rfl, hb, -⟩, -, _, rfl, k, _,
      ⟨c, rfl, hc, -⟩, -, _, rfl, l, _, ⟨d, rfl, hd, hends⟩, heq⟩
    cases heq
    exact ⟨_, by simp, .mk ha hb hc hd, hends⟩
  · rintro ⟨_, rfl, ⟨ha, hb, hc, hd⟩, hends⟩
    refine ⟨_, _, ⟨_, ?_, ha, hdot _⟩, (), _, rfl, _, _, ⟨_, rfl, hb, hdot _⟩, (), _, rfl, _, _,
      ⟨_, rfl, hc, hdot _⟩, (), _, rfl, _, _, ⟨_, rfl, hd, hends⟩, rfl⟩
    simp

/-! ### Groups -/

/-- A group of IPv6 has up to four digits. -/
structure Group (cs : List Char) (g : Nat) : Prop extends Numeral 16 0xFFFF cs g where
  length_le : cs.length ≤ 4

/-- What stands before a group: nothing before the first one, a colon before the others. -/
def lead (first : Bool) : List Char := if first then [] else [':']

/-- Some groups, none included; whether they start an address, and whether they end in octets. -/
inductive Groups : Bool → List Char → List Nat → Bool → Prop
  | none (first : Bool) : Groups first [] [] false
  | quad (first : Bool) {cs : List Char} {o : List Nat} (h : Quad cs o) :
      Groups first (lead first ++ cs)
        [256 * o.getD 0 0 + o.getD 1 0, 256 * o.getD 2 0 + o.getD 3 0] true
  | group (first : Bool) {cs rest : List Char} {g : Nat} {gs : List Nat} {ended : Bool}
      (h : Group cs g) (hrest : Groups false rest gs ended) :
      Groups first (lead first ++ (cs ++ rest)) (g :: gs) ended

theorem separated_eq_some_iff {α : Type} {p : Reader α} {a : α} :
    separated first p s = some (a, rest) ↔ ∃ s', s = lead first ++ s' ∧ p s' = some (a, rest) := by
  cases first with
  | true => simp [separated, lead]
  | false =>
    simp [separated, lead, Option.bind_eq_some_iff, char_eq_some_iff]

/-- What the reader of groups takes are groups, no more than there is room for. -/
theorem groups_sound {room : Nat} (h : groups room first s = (gs, ended, rest)) :
    ∃ cs, s = cs ++ rest ∧ Groups first cs gs ended ∧ gs.length ≤ room := by
  induction room generalizing first s gs with
  | zero =>
    cases h
    exact ⟨[], rfl, .none first, Nat.le_refl _⟩
  | succ room ih =>
    rw [groups] at h
    split at h
    · next o s' hquad =>
      cases h
      obtain ⟨hroom, hseparated⟩ := Option.ite_none_right_eq_some.1 hquad
      obtain ⟨s', rfl, hipv4⟩ := separated_eq_some_iff.1 hseparated
      obtain ⟨cs, rfl, hcs, -⟩ := ipv4_eq_some_iff.1 hipv4
      refine ⟨lead first ++ cs, by simp, .quad first hcs, ?_⟩
      simp only [List.length_cons, List.length_nil]
      omega
    · split at h
      · next g s' hgroup =>
        obtain ⟨gs', ended', rest', hrest⟩ : ∃ gs' ended' rest',
            groups room false s' = (gs', ended', rest') := ⟨_, _, _, rfl⟩
        rw [hrest] at h
        cases h
        obtain ⟨more, rfl, hgroups, hlen⟩ := ih hrest
        obtain ⟨s', rfl, hnumber⟩ := separated_eq_some_iff.1 hgroup
        obtain ⟨cs, rfl, hnumeral, hwidth, -, -⟩ := number_eq_some_iff.1 hnumber
        refine ⟨lead first ++ (cs ++ more), by simp, .group first ⟨hnumeral, hwidth 4 rfl⟩ hgroups,
          Nat.succ_le_succ hlen⟩
      · cases h
        exact ⟨[], rfl, .none first, Nat.zero_le _⟩

/-- A zone, the bracket, or two colons come next. -/
def EndsGroups (rest : List Char) : Prop :=
  ∃ more, rest = '%' :: more ∨ rest = ']' :: more ∨ rest = ':' :: ':' :: more

/-- A mark that is part of no group comes next. -/
def EndsGroup (rest : List Char) : Prop := ∃ c more, rest = c :: more ∧ c ∈ ['%', ']', ':']

theorem EndsGroups.endsGroup (h : EndsGroups rest) : EndsGroup rest := by
  obtain ⟨more, rfl | rfl | rfl⟩ := h
  · exact ⟨_, _, rfl, by decide⟩
  · exact ⟨_, _, rfl, by decide⟩
  · exact ⟨_, _, rfl, by decide⟩

/-- Such a mark is no digit. -/
theorem EndsGroup.endsNumber (h : EndsGroup rest) (base : Nat) : EndsNumber base rest := by
  obtain ⟨c, more, rfl, hc⟩ := h
  simp only [List.mem_cons, List.not_mem_nil, or_false] at hc
  refine endsNumber_cons ?_
  rcases hc with rfl | rfl | rfl <;> simp [Digit.value?]

/-- Groups that follow others start with a colon. -/
theorem Groups.endsGroup (h : Groups false cs gs ended) (hrest : EndsGroup rest) :
    EndsGroup (cs ++ rest) := by
  cases h with
  | none => exact hrest
  | quad => exact ⟨':', _, rfl, by decide⟩
  | group => exact ⟨':', _, rfl, by decide⟩

/-- Where groups end, nothing can be taken that starts with a digit. -/
theorem EndsGroups.separated_eq_none {α : Type} {p : Reader α} (h : EndsGroups rest)
    (hp : ∀ rest, EndsGroup rest → p rest = none) : separated first p rest = none := by
  cases first with
  | true => exact hp rest h.endsGroup
  | false =>
    obtain ⟨more, rfl | rfl | rfl⟩ := h
    · rfl
    · rfl
    · exact hp _ ⟨_, _, rfl, by decide⟩

/-- Digits of a group with no dot behind them do not start an IPv4 address. -/
theorem ipv4_eq_none_of_group {g : Nat} (hcs : Group cs g) (hrest : EndsGroup rest) :
    ipv4 (cs ++ rest) = none := by
  refine Option.eq_none_iff_forall_ne_some.2 ?_
  rintro ⟨o, after⟩ h
  obtain ⟨_, heq, ⟨ha, -, -, -⟩, -⟩ := ipv4_eq_some_iff.1 h
  have hends := hrest.endsNumber 10
  obtain ⟨c, more, rfl, hc⟩ := hrest
  rw [List.append_assoc, List.cons_append] at heq
  rcases List.append_eq_append_iff.1 heq with ⟨a', rfl, hmore⟩ | ⟨c', rfl, hmore⟩
  · -- The first octet would go on past the digits of the group.
    cases a' with
    | nil =>
      obtain ⟨rfl, -⟩ := List.cons.inj hmore
      revert hc
      decide
    | cons d a' =>
      obtain ⟨rfl, -⟩ := List.cons.inj hmore
      exact absurd (by simp) (ha.not_mem hends)
  · -- The dot after it would be one of these digits.
    cases c' with
    | nil =>
      obtain ⟨rfl, -⟩ := List.cons.inj hmore
      revert hc
      decide
    | cons d c' =>
      obtain ⟨rfl, -⟩ := List.cons.inj hmore
      have hdot : EndsNumber 16 ('.' :: more) := endsNumber_cons (by decide)
      exact absurd (by simp) (hcs.not_mem hdot)

theorem number_eq_none {base most : Nat} {width : Option Nat} {leadingZeros : Bool}
    (h : EndsGroup rest) : number base most width leadingZeros rest = none := by
  refine Option.eq_none_iff_forall_ne_some.2 ?_
  rintro ⟨n, after⟩ heq
  obtain ⟨cs, rfl, hnumeral, -⟩ := number_eq_some_iff.1 heq
  have hends := h.endsNumber base
  cases cs with
  | nil => exact hnumeral.ne_nil rfl
  | cons c cs => exact hnumeral.not_mem hends (.head _)

theorem ipv4_eq_none (h : EndsGroup rest) : ipv4 rest = none := by
  have hoctet : octet rest = none := number_eq_none h
  rw [ipv4, hoctet]
  rfl

/-- Groups are taken as a whole if there is room for them. -/
theorem groups_complete {room : Nat} (h : Groups first cs gs ended) (hroom : gs.length ≤ room)
    (hrest : EndsGroups rest) : groups room first (cs ++ rest) = (gs, ended, rest) := by
  induction h generalizing room with
  | none first =>
    cases room with
    | zero => rfl
    | succ room =>
      have hquad : separated first ipv4 rest = none :=
        hrest.separated_eq_none fun _ => ipv4_eq_none
      have hgroup : separated first (number 16 0xFFFF (some 4) true) rest = none :=
        hrest.separated_eq_none fun _ => number_eq_none
      simp [groups, hquad, hgroup]
  | @quad first cs o h =>
    obtain ⟨room, rfl⟩ : ∃ r, room = r + 2 := Nat.exists_eq_add_of_le' hroom
    have hipv4 : ipv4 (cs ++ rest) = some (o, rest) :=
      ipv4_eq_some_iff.2 ⟨cs, rfl, h, hrest.endsGroup.endsNumber 10⟩
    have hquad : separated first ipv4 (lead first ++ cs ++ rest) = some (o, rest) :=
      separated_eq_some_iff.2 ⟨cs ++ rest, by simp, hipv4⟩
    rw [groups, if_pos (Nat.succ_pos _), hquad]
  | @group first cs more g gs ended h hmore ih =>
    obtain ⟨room, rfl⟩ : ∃ r, room = r + 1 :=
      Nat.exists_eq_add_of_le' (Nat.le_trans (by simp) hroom)
    have hends : EndsGroup (more ++ rest) := hmore.endsGroup hrest.endsGroup
    have hassoc : lead first ++ (cs ++ more) ++ rest = lead first ++ (cs ++ (more ++ rest)) := by
      simp
    -- The reader tries an IPv4 address first, and the digits of the group must not start one.
    have hquad : separated first ipv4 (lead first ++ (cs ++ (more ++ rest))) = none := by
      refine Option.eq_none_iff_forall_ne_some.2 ?_
      rintro ⟨o, after⟩ heq
      obtain ⟨s', hs', hipv4⟩ := separated_eq_some_iff.1 heq
      rw [← List.append_cancel_left hs', ipv4_eq_none_of_group h hends] at hipv4
      cases hipv4
    have hnumber : number 16 0xFFFF (some 4) true (cs ++ (more ++ rest)) =
        some (g, more ++ rest) := by
      refine number_eq_some_iff.2 ⟨cs, rfl, h.toNumeral, ?_, by simp, hends.endsNumber 16⟩
      rintro w hw
      cases hw
      exact h.length_le
    have hgroup : separated first (number 16 0xFFFF (some 4) true)
        (lead first ++ (cs ++ (more ++ rest))) = some (g, more ++ rest) :=
      separated_eq_some_iff.2 ⟨_, rfl, hnumber⟩
    have hlen : gs.length ≤ room := Nat.le_of_succ_le_succ hroom
    rw [hassoc]
    simp [groups, hquad, hgroup, ih hlen]

/-! ### Addresses -/

/-- An IPv6 address: eight groups, or fewer around two colons. -/
inductive Ipv6 : List Char → List Nat → Prop
  | full {cs : List Char} {gs : List Nat} {ended : Bool} (h : Groups true cs gs ended)
      (hlen : gs.length = 8) : Ipv6 cs gs
  | short {front back : List Char} {gs gs' : List Nat} {ended : Bool}
      (hfront : Groups true front gs false) (hback : Groups true back gs' ended)
      (hlen : gs.length + gs'.length ≤ 7) :
      Ipv6 (front ++ ':' :: ':' :: back)
        (gs ++ List.replicate (8 - gs.length - gs'.length) 0 ++ gs')

theorem ipv6_sound (h : ipv6 s = some (gs, rest)) : ∃ cs, s = cs ++ rest ∧ Ipv6 cs gs := by
  obtain ⟨front, ended, s', hfront⟩ : ∃ front ended s', groups 8 true s = (front, ended, s') :=
    ⟨_, _, _, rfl⟩
  obtain ⟨cs, rfl, hgroups, hroom⟩ := groups_sound hfront
  simp only [ipv6, hfront] at h
  split at h
  · next hlen =>
    cases h
    exact ⟨cs, rfl, .full hgroups hlen⟩
  · next hlen =>
    cases ended with
    | true => cases h
    | false =>
      simp only [Bool.false_eq_true, if_false, Option.bind_eq_bind, Option.bind_eq_some_iff,
        Prod.exists, char_eq_some_iff] at h
      obtain ⟨-, _, rfl, -, s', rfl, h⟩ := h
      obtain ⟨back, ended, rest', hback⟩ : ∃ back ended rest',
          groups (7 - front.length) true s' = (back, ended, rest') := ⟨_, _, _, rfl⟩
      simp only [hback, Option.some.injEq, Prod.mk.injEq] at h
      obtain ⟨rfl, rfl⟩ := h
      obtain ⟨cs', rfl, hgroups', hroom'⟩ := groups_sound hback
      exact ⟨_, by simp, .short hgroups hgroups' (by omega)⟩

theorem ipv6_complete (h : Ipv6 cs gs) (hrest : EndsGroups rest) :
    ipv6 (cs ++ rest) = some (gs, rest) := by
  cases h with
  | @full _ _ ended h hlen =>
    have hgroups : groups 8 true (cs ++ rest) = (gs, ended, rest) :=
      groups_complete h (Nat.le_of_eq hlen) hrest
    simp [ipv6, hgroups, hlen]
  | @short front back gs gs' ended hfront hback hlen =>
    have hcolons : EndsGroups (':' :: ':' :: (back ++ rest)) := ⟨_, .inr (.inr rfl)⟩
    have hgroups : groups 8 true (front ++ ':' :: ':' :: (back ++ rest)) =
        (gs, false, ':' :: ':' :: (back ++ rest)) := groups_complete hfront (by omega) hcolons
    have hgroups' : groups (7 - gs.length) true (back ++ rest) = (gs', ended, rest) :=
      groups_complete hback (by omega) hrest
    have hne : gs.length ≠ 8 := by omega
    simp [ipv6, hgroups, hne, char, hgroups']

/-- A zone is a number after a percent sign, and zero if it is left out. -/
inductive Zone : List Char → Nat → Prop
  | none : Zone [] 0
  | some {cs : List Char} {n : Nat} (h : Numeral 10 0xFFFFFFFF cs n) : Zone ('%' :: cs) n

theorem plainNumber_eq_some_iff {most n : Nat} :
    number 10 most none true s = some (n, rest) ↔
      ∃ cs, s = cs ++ rest ∧ Numeral 10 most cs n ∧ EndsNumber 10 rest := by
  simp [number_eq_some_iff]

theorem zone_sound {n : Nat} (h : zone s = some (n, rest)) :
    ∃ cs, s = cs ++ rest ∧ Zone cs n := by
  rw [zone] at h
  split at h
  · next s' hpercent =>
    obtain ⟨cs, rfl, hcs, -⟩ := plainNumber_eq_some_iff.1 h
    rw [char_eq_some_iff.1 hpercent]
    exact ⟨'%' :: cs, rfl, .some hcs⟩
  · cases h
    exact ⟨[], rfl, .none⟩

theorem zone_complete {n : Nat} (h : Zone cs n) :
    zone (cs ++ ']' :: rest) = some (n, ']' :: rest) := by
  cases h with
  | none => simp [zone, char]
  | @some cs n h =>
    have hnumber : number 10 0xFFFFFFFF none true (cs ++ ']' :: rest) = some (n, ']' :: rest) :=
      plainNumber_eq_some_iff.2 ⟨cs, rfl, h, endsNumber_cons (by decide)⟩
    simp [zone, char, hnumber]

theorem port_eq_some_iff {n : Nat} :
    port s = some (n, rest) ↔
      ∃ cs, s = ':' :: (cs ++ rest) ∧ Numeral 10 65535 cs n ∧ EndsNumber 10 rest := by
  simp only [port, Option.bind_eq_bind, Option.bind_eq_some_iff, Prod.exists, char_eq_some_iff,
    plainNumber_eq_some_iff]
  constructor
  · rintro ⟨-, _, rfl, cs, rfl, hcs, hends⟩
    exact ⟨cs, rfl, hcs, hends⟩
  · rintro ⟨cs, rfl, hcs, hends⟩
    exact ⟨(), _, rfl, cs, rfl, hcs, hends⟩

/-- The texts of an address. -/
inductive Written : SocketAddress → List Char → Prop
  | v4 {ip port : List Char} {o : List Nat} {p : Nat} (hip : Quad ip o)
      (hport : Numeral 10 65535 port p) : Written (.v4 o p) (ip ++ ':' :: port)
  | v6 {ip zone port : List Char} {gs : List Nat} {z p : Nat} (hip : Ipv6 ip gs)
      (hzone : Zone zone z) (hport : Numeral 10 65535 port p) :
      Written (.v6 gs z p) ('[' :: (ip ++ (zone ++ ']' :: ':' :: port)))

theorem socketV4_eq_some_iff {a : SocketAddress} :
    socketV4 s = some (a, rest) ↔
      ∃ ip o port p, s = ip ++ ':' :: (port ++ rest) ∧ Quad ip o ∧ Numeral 10 65535 port p ∧
        EndsNumber 10 rest ∧ a = .v4 o p := by
  simp only [socketV4, Option.bind_eq_bind, Option.bind_eq_some_iff, Prod.exists,
    ipv4_eq_some_iff, port_eq_some_iff]
  constructor
  · rintro ⟨o, _, ⟨ip, rfl, hip, -⟩, p, _, ⟨port, rfl, hport, hends⟩, heq⟩
    cases heq
    exact ⟨ip, o, port, p, rfl, hip, hport, hends, rfl⟩
  · rintro ⟨ip, o, port, p, rfl, hip, hport, hends, rfl⟩
    exact ⟨o, _, ⟨ip, rfl, hip, endsNumber_cons (by decide)⟩, p, _, ⟨port, rfl, hport, hends⟩, rfl⟩

theorem socketV6_sound {a : SocketAddress} (h : socketV6 s = some (a, [])) : Written a s := by
  simp only [socketV6, Option.bind_eq_bind, Option.bind_eq_some_iff, Prod.exists,
    char_eq_some_iff, port_eq_some_iff] at h
  obtain ⟨-, _, rfl, gs, _, hip, z, _, hzone, -, _, rfl, p, _, ⟨port, rfl, hport, -⟩, heq⟩ := h
  cases heq
  obtain ⟨ip, rfl, hip'⟩ := ipv6_sound hip
  obtain ⟨zone, rfl, hzone'⟩ := zone_sound hzone
  rw [List.append_nil]
  exact .v6 hip' hzone' hport

/-- The texts of an address are taken as a whole. -/
theorem read_of_written {a : SocketAddress} (h : Written a s) :
    socketV4 s = some (a, []) ∨ socketV4 s = none ∧ socketV6 s = some (a, []) := by
  cases h with
  | @v4 ip port o p hip hport =>
    exact .inl (socketV4_eq_some_iff.2 ⟨ip, o, port, p, by simp, hip, hport, by simp [EndsNumber],
      rfl⟩)
  | @v6 ip zone port gs z p hip hzone hport =>
    have hends : EndsGroups (zone ++ ']' :: ':' :: port) := by
      cases hzone with
      | none => exact ⟨_, .inr (.inl rfl)⟩
      | some => exact ⟨_, .inl rfl⟩
    have hport : SocketAddress.port (':' :: port) = some (p, []) :=
      port_eq_some_iff.2 ⟨port, by simp, hport, by simp [EndsNumber]⟩
    refine .inr ⟨rfl, ?_⟩
    simp [socketV6, char, ipv6_complete hip hends, zone_complete hzone, hport]

/-- **Reading addresses.**  An address is read from its texts and from no others. -/
theorem parse?_eq_some_iff {text : String} {a : SocketAddress} :
    parse? text = some a ↔ Written a text.toList := by
  constructor
  · intro h
    rw [parse?] at h
    split at h
    · next b hread =>
      cases h
      cases hv4 : socketV4 text.toList with
      | some r =>
        rw [hv4] at hread
        cases hread
        obtain ⟨ip, o, port, p, htext, hip, hport, -, rfl⟩ := socketV4_eq_some_iff.1 hv4
        rw [htext, List.append_nil]
        exact .v4 hip hport
      | none =>
        rw [hv4] at hread
        exact socketV6_sound hread
    · cases h
  · intro h
    rcases read_of_written h with hv4 | ⟨hv4, hv6⟩
    · simp [parse?, hv4]
    · simp [parse?, hv4, hv6]

end Fleet.SocketAddress
