/- Tsender/Json/Settling
   source: jsoncpp.cpp (Reader::readValue, readArray, readObject, BuiltStyledStreamWriter)
   digest: Every text that the reader accepts can be written and read again; a text of a value may
   change in the first two rounds, and from then on nothing does. -/

import Tsender.Json.RoundTrip

set_option autoImplicit false
set_option relaxedAutoImplicit false

namespace Tsender.Json

section Texts

def FromCodePoints (s : Str) : Prop :=
  ∃ cps : List ℕ, (∀ cp ∈ cps, cp ≤ 0x10ffff) ∧ s = cps.flatMap codePointToUTF8

private theorem fromCodePoints_nil : FromCodePoints [] := ⟨[], nofun, rfl⟩

theorem FromCodePoints.append {s t : Str} (hs : FromCodePoints s) (ht : FromCodePoints t) :
    FromCodePoints (s ++ t) := by
  obtain ⟨cps, bound, rfl⟩ := hs
  obtain ⟨dps, bound', rfl⟩ := ht
  refine ⟨cps ++ dps, fun cp inside => ?_, List.flatMap_append.symm⟩
  exact (List.mem_append.mp inside).elim (bound cp) (bound' cp)

private theorem utf8ToCodepoint_lt (c : Char) (cs : Str) : (utf8ToCodepoint c cs).1 < 0x200000 := by
  have replaced : replacementCharacter < 0x200000 := by decide
  simp only [utf8ToCodepoint, two_eq, three_eq, four_eq]
  split_ifs with one two three four
  · omega
  · rcases cs with _ | ⟨s1, rest⟩
    · exact replaced
    · simp only
      split_ifs
      · exact replaced
      · omega
  · rcases cs with _ | ⟨s1, _ | ⟨s2, rest⟩⟩
    · exact replaced
    · exact replaced
    · simp only
      split_ifs
      · exact replaced
      · exact replaced
      · omega
  · rcases cs with _ | ⟨s1, _ | ⟨s2, _ | ⟨s3, rest⟩⟩⟩
    · exact replaced
    · exact replaced
    · exact replaced
    · simp only
      split_ifs
      · exact replaced
      · omega
  · exact replaced

private theorem fromCodePoints_encoded {cp : ℕ} (bound : cp < 0x200000) : FromCodePoints
    (encoded cp) := by
  unfold encoded
  split_ifs with inside
  · exact ⟨[cp], by simpa using inside, by simp⟩
  · refine ⟨[(cp - 0x10000) / 1024 + 0xd800, (cp - 0x10000) % 1024 + 0xdc00], ?_, by simp⟩
    simp only [List.mem_cons, List.not_mem_nil, or_false]
    rintro n (rfl | rfl) <;> omega

private theorem fromCodePoints_repair (s : Str) : FromCodePoints (repair s) := by
  induction len : s.length using Nat.strong_induction_on generalizing s with
  | _ n ih =>
    cases s with
    | nil => exact fromCodePoints_nil
    | cons c cs =>
      rw [repair_cons]
      refine (fromCodePoints_encoded (utf8ToCodepoint_lt c cs)).append (ih _ ?_ _ rfl)
      rw [← len, List.length_drop, List.length_cons]
      omega

/-- A surrogate is replaced as a whole. -/
private theorem repair_surrogate {cp : ℕ} (surrogate : 0xd800 ≤ cp ∧ cp ≤ 0xdfff) (t : Str) :
    repair (codePointToUTF8 cp ++ t) = encoded replacementCharacter ++ repair t := by
  have lead : (Char.ofNat (cp / 4096 % 16 + 0xe0)).toNat = cp / 4096 % 16 + 0xe0 :=
    toNat_ofNat (.inl (by omega))
  have whole : ((cp / 4096 % 16 + 0xe0) % 16 * 64 + (cp / 64 % 64 + 0x80) % 64) * 64 +
      (cp % 64 + 0x80) % 64 = cp := by omega
  have step : utf8ToCodepoint (Char.ofNat (cp / 4096 % 16 + 0xe0))
      (Char.ofNat (cp / 64 % 64 + 0x80) :: Char.ofNat (cp % 64 + 0x80) :: t) =
        (replacementCharacter, 2) := by
    simp only [utf8ToCodepoint, three_eq, lead, tail_toNat, whole]
    rw [if_neg (by omega), if_neg (by omega), if_pos (by omega), if_pos surrogate]
  rw [codePointToUTF8_eq, if_neg (by omega), if_neg (by omega), if_pos (by omega)]
  simp only [List.cons_append, List.nil_append]
  rw [repair_cons, step]
  rfl

private theorem repair_character (x : Char) (t : Str) :
    repair (utf8Bytes x ++ t) = utf8Bytes x ++ repair t := by
  obtain ⟨c, cs, bytes, step⟩ := utf8ToCodepoint_utf8Bytes x
  rw [bytes, List.cons_append, repair_cons, step, List.drop_left, encoded_toNat, bytes,
    List.cons_append]

private theorem wellFormed_cons (x : Char) {t : Str} (h : WellFormed t) : WellFormed
    (utf8Bytes x ++ t) := by
  obtain ⟨text, rfl⟩ := h
  exact ⟨x :: text, rfl⟩

private theorem FromCodePoints.wellFormed_repair {s : Str} (h : FromCodePoints s) : WellFormed
    (repair s) := by
  obtain ⟨cps, bound, rfl⟩ := h
  induction cps with
  | nil => exact ⟨[], rfl⟩
  | cons cp cps ih =>
    have rest := ih fun n inside => bound n (List.mem_cons_of_mem _ inside)
    have small := bound cp List.mem_cons_self
    rw [List.flatMap_cons]
    by_cases surrogate : 0xd800 ≤ cp ∧ cp ≤ 0xdfff
    · rw [repair_surrogate surrogate, encoded_of_valid (by decide)]
      exact wellFormed_cons _ rest
    · have valid : cp.isValidChar := by unfold Nat.isValidChar; omega
      rw [← toNat_ofNat valid, codePointToUTF8_toNat, repair_character]
      exact wellFormed_cons _ rest

end Texts

section Bounds

variable {R : Type}

/-- A value with texts and doubles of some kind, in which arrays and objects stand no deeper in
each other than a bound. -/
inductive Within (S : Str → Prop) (D : R → Prop) : ℕ → Value R → Prop
  | null (n : ℕ) : Within S D n .null
  | bool (n : ℕ) (b : Bool) : Within S D n (.bool b)
  | int (n : ℕ) (i : Int64) : Within S D n (.int i)
  | uint (n : ℕ) (u : UInt64) : Within S D n (.uint u)
  | real (n : ℕ) {r : R} : D r → Within S D n (.real r)
  | string (n : ℕ) {s : Str} : S s → Within S D n (.string s)
  | array {n : ℕ} {vs : List (Value R)} : (vs ≠ [] → 0 < n) →
      (∀ v ∈ vs, Within S D (n - 1) v) → Within S D n (.array vs)
  | object {n : ℕ} {ms : List (Str × Value R)} : (ms ≠ [] → 0 < n) →
      (∀ m ∈ ms, S m.1) → (∀ m ∈ ms, Within S D (n - 1) m.2) → Within S D n (.object ms)

private theorem heights_le_iff {vs : List (Value R)} {n : ℕ} :
    heights vs ≤ n ↔ ∀ v ∈ vs, height v + 1 ≤ n := by
  induction vs with
  | nil => simp [heights]
  | cons v vs ih => simp [heights, ih]

private theorem memberHeights_le_iff {ms : List (Str × Value R)} {n : ℕ} :
    memberHeights ms ≤ n ↔ ∀ m ∈ ms, height m.2 + 1 ≤ n := by
  induction ms with
  | nil => simp [memberHeights]
  | cons m ms ih => simp [memberHeights, ih]

variable {S S' : Str → Prop} {D : R → Prop}

private theorem within_of_height (v : Value R) : ∀ n, height v ≤ n → (∀ r ∈ reals v, D r) →
    Within (fun _ => True) D n v := by
  refine Inductive.all (motive := fun v => ∀ n, height v ≤ n → (∀ r ∈ reals v, D r) →
    Within (fun _ => True) D n v) ?_ v
  refine {
    null := fun n _ _ => .null n
    bool := fun b n _ _ => .bool n b
    int := fun i n _ _ => .int n i
    uint := fun u n _ _ => .uint n u
    real := fun r n _ doubles => .real n (doubles r (by simp [reals]))
    string := fun s n _ _ => .string n trivial
    array := fun vs each n bound doubles => ?_
    object := fun ms each n bound doubles => ?_ }
  · have below := heights_le_iff.mp bound
    refine .array (fun some => ?_) fun v inside => ?_
    · obtain ⟨v, inside⟩ := List.exists_mem_of_ne_nil vs some
      exact Nat.lt_of_lt_of_le (Nat.succ_pos _) (below v inside)
    · exact each v inside _ (Nat.le_sub_one_of_lt (below v inside)) fun r deeper =>
        doubles r (mem_allReals inside deeper)
  · have below := memberHeights_le_iff.mp bound
    refine .object (fun some => ?_) (fun _ _ => trivial) fun m inside => ?_
    · obtain ⟨m, inside⟩ := List.exists_mem_of_ne_nil ms some
      exact Nat.lt_of_lt_of_le (Nat.succ_pos _) (below m inside)
    · exact each m inside _ (Nat.le_sub_one_of_lt (below m inside)) fun r deeper =>
        doubles r (mem_memberReals inside deeper)

private theorem Within.height_le {n : ℕ} {v : Value R} (h : Within S D n v) : height v ≤ n := by
  induction h with
  | null | bool | int | uint | real | string => exact Nat.zero_le _
  | array room each ih =>
    refine heights_le_iff.mpr fun v inside => ?_
    have some := room (List.ne_nil_of_mem inside)
    have lower := ih v inside
    omega
  | object room named each ih =>
    refine memberHeights_le_iff.mpr fun m inside => ?_
    have some := room (List.ne_nil_of_mem inside)
    have lower := ih m inside
    omega

private theorem mem_reals_elements {vs : List (Value R)} {r : R} (inside : r ∈ allReals vs) :
    ∃ v ∈ vs, r ∈ reals v := by
  induction vs with
  | nil => exact absurd inside List.not_mem_nil
  | cons v vs ih =>
    rcases List.mem_append.mp inside with here | behind
    · exact ⟨v, List.mem_cons_self, here⟩
    · obtain ⟨w, below, deeper⟩ := ih behind
      exact ⟨w, List.mem_cons_of_mem _ below, deeper⟩

private theorem mem_reals_members {ms : List (Str × Value R)} {r : R} (inside : r ∈ memberReals ms)
    : ∃ m ∈ ms, r ∈ reals m.2 := by
  induction ms with
  | nil => exact absurd inside List.not_mem_nil
  | cons m ms ih =>
    rcases List.mem_append.mp inside with here | behind
    · exact ⟨m, List.mem_cons_self, here⟩
    · obtain ⟨n, below, deeper⟩ := ih behind
      exact ⟨n, List.mem_cons_of_mem _ below, deeper⟩

theorem Within.reals {n : ℕ} {v : Value R} (h : Within S D n v) : ∀ r ∈ reals v, D r := by
  induction h with
  | null | bool | int | uint | string => exact fun r inside => absurd inside List.not_mem_nil
  | real n some =>
    intro r inside
    rwa [List.mem_singleton.mp inside]
  | array room each ih =>
    intro r inside
    obtain ⟨v, below, deeper⟩ := mem_reals_elements inside
    exact ih v below r deeper
  | object room named each ih =>
    intro r inside
    obtain ⟨m, below, deeper⟩ := mem_reals_members inside
    exact ih m below r deeper

theorem Within.encoded {n : ℕ} {v : Value R} (h : Within WellFormed D n v) : Encoded v := by
  induction h with
  | null | bool | int | uint | real => exact trivial
  | string n some => exact some
  | @array n vs room each ih =>
    show AllEncoded vs
    clear room each
    induction vs with
    | nil => exact trivial
    | cons v vs rest =>
      exact ⟨ih v List.mem_cons_self, rest fun w below => ih w (List.mem_cons_of_mem _ below)⟩
  | @object n ms room named each ih =>
    show MembersEncoded ms
    clear room each
    induction ms with
    | nil => exact trivial
    | cons m ms rest =>
      exact ⟨named m List.mem_cons_self, ih m List.mem_cons_self,
        rest (fun k below => named k (List.mem_cons_of_mem _ below))
          fun k below => ih k (List.mem_cons_of_mem _ below)⟩

private theorem mem_allInOrder {vs : List (Value R)} {v : Value R} (inside : v ∈ allInOrder vs) :
    ∃ w ∈ vs, v = inOrder w := by
  induction vs with
  | nil => exact absurd inside List.not_mem_nil
  | cons w vs ih =>
    rcases List.mem_cons.mp inside with rfl | behind
    · exact ⟨w, List.mem_cons_self, rfl⟩
    · obtain ⟨u, below, same⟩ := ih behind
      exact ⟨u, List.mem_cons_of_mem _ below, same⟩

private theorem mem_membersInOrder {ms : List (Str × Value R)} {m : Str × Value R}
    (inside : m ∈ membersInOrder ms) : ∃ k ∈ ms, m = (k.1, inOrder k.2) := by
  induction ms with
  | nil => exact absurd inside List.not_mem_nil
  | cons k ms ih =>
    rcases mem_insertMember inside with rfl | behind
    · exact ⟨k, List.mem_cons_self, rfl⟩
    · obtain ⟨l, below, same⟩ := ih behind
      exact ⟨l, List.mem_cons_of_mem _ below, same⟩

theorem Within.inOrder {n : ℕ} {v : Value R} (h : Within S D n v) : Within S D n (inOrder v) := by
  induction h with
  | null n => exact .null n
  | bool n b => exact .bool n b
  | int n i => exact .int n i
  | uint n u => exact .uint n u
  | real n some => exact .real n some
  | string n some => exact .string n some
  | array room each ih =>
    refine .array (fun some => ?_) fun v inside => ?_
    · obtain ⟨v, inside⟩ := List.exists_mem_of_ne_nil _ some
      obtain ⟨w, below, -⟩ := mem_allInOrder inside
      exact room (List.ne_nil_of_mem below)
    · obtain ⟨w, below, rfl⟩ := mem_allInOrder inside
      exact ih w below
  | object room named each ih =>
    refine .object (fun some => ?_) (fun m inside => ?_) fun m inside => ?_
    · obtain ⟨m, inside⟩ := List.exists_mem_of_ne_nil _ some
      obtain ⟨k, below, -⟩ := mem_membersInOrder inside
      exact room (List.ne_nil_of_mem below)
    · obtain ⟨k, below, rfl⟩ := mem_membersInOrder inside
      exact named k below
    · obtain ⟨k, below, rfl⟩ := mem_membersInOrder inside
      exact ih k below

private theorem mem_rereadAll {vs : List (Value R)} {v : Value R} (inside : v ∈ rereadAll vs) :
    ∃ w ∈ vs, v = reread w := by
  induction vs with
  | nil => exact absurd inside List.not_mem_nil
  | cons w vs ih =>
    rcases List.mem_cons.mp inside with rfl | behind
    · exact ⟨w, List.mem_cons_self, rfl⟩
    · obtain ⟨u, below, same⟩ := ih behind
      exact ⟨u, List.mem_cons_of_mem _ below, same⟩

private theorem mem_setMember_or {ms : List (Str × Value R)} {key : Str} {v : Value R}
    {m : Str × Value R} (inside : m ∈ setMember ms key v) : m = (key, v) ∨ m ∈ ms := by
  induction ms with
  | nil => exact .inl (List.mem_singleton.mp inside)
  | cons k ms ih =>
    obtain ⟨name, w⟩ := k
    simp only [setMember] at inside
    split_ifs at inside with here
    · rw [here]
      exact (List.mem_cons.mp inside).imp_right (List.mem_cons_of_mem _)
    · rcases List.mem_cons.mp inside with rfl | behind
      · exact .inr List.mem_cons_self
      · exact (ih behind).imp_right (List.mem_cons_of_mem _)

private theorem mem_rereadMembers {ms before : List (Str × Value R)} {m : Str × Value R}
    (inside : m ∈ rereadMembers before ms) :
    m ∈ before ∨ ∃ k ∈ ms, m = (repair k.1, reread k.2) := by
  induction ms generalizing before with
  | nil => exact .inl inside
  | cons k ms ih =>
    rcases ih inside with earlier | ⟨l, below, same⟩
    · rcases mem_setMember_or earlier with rfl | earlier
      · exact .inr ⟨k, List.mem_cons_self, rfl⟩
      · exact .inl earlier
    · exact .inr ⟨l, List.mem_cons_of_mem _ below, same⟩

private theorem within_number (n : ℕ) (i : ℤ) : Within S D n (number i) := by
  unfold number
  split_ifs
  · exact .int n _
  · exact .uint n _

theorem Within.reread {n : ℕ} {v : Value R} (repaired : ∀ s, S s → S' (repair s))
    (h : Within S D n v) : Within S' D n (reread v) := by
  induction h with
  | null n => exact .null n
  | bool n b => exact .bool n b
  | int n i => exact within_number n _
  | uint n u => exact within_number n _
  | real n some => exact .real n some
  | string n some => exact .string n (repaired _ some)
  | array room each ih =>
    refine .array (fun some => ?_) fun v inside => ?_
    · obtain ⟨v, inside⟩ := List.exists_mem_of_ne_nil _ some
      obtain ⟨w, below, -⟩ := mem_rereadAll inside
      exact room (List.ne_nil_of_mem below)
    · obtain ⟨w, below, rfl⟩ := mem_rereadAll inside
      exact ih w below
  | @object n ms room named each ih =>
    have from_member : ∀ {m}, m ∈ rereadMembers [] ms →
        ∃ k ∈ ms, m = (repair k.1, Json.reread k.2) := fun inside =>
      (mem_rereadMembers inside).resolve_left List.not_mem_nil
    refine .object (fun some => ?_) (fun m inside => ?_) fun m inside => ?_
    · obtain ⟨m, inside⟩ := List.exists_mem_of_ne_nil _ some
      obtain ⟨k, below, -⟩ := from_member inside
      exact room (List.ne_nil_of_mem below)
    · obtain ⟨k, below, rfl⟩ := from_member inside
      exact repaired _ (named k below)
    · obtain ⟨k, below, rfl⟩ := from_member inside
      exact ih k below

end Bounds

section Accepted

variable {R : Type} [Doubles R] {fuel : ℕ}

omit [Doubles R] in
private theorem heights_concat (vs : List (Value R)) (v : Value R) {n : ℕ} (before : heights vs ≤ n)
    (last : height v + 1 ≤ n) : heights (vs ++ [v]) ≤ n := by
  rw [heights_le_iff] at before ⊢
  intro u inside
  rcases List.mem_append.mp inside with earlier | same
  · exact before u earlier
  · rwa [List.mem_singleton.mp same]

omit [Doubles R] in
private theorem memberHeights_setMember {ms : List (Str × Value R)} {key : Str} {v : Value R}
    {n : ℕ} (before : memberHeights ms ≤ n) (last : height v + 1 ≤ n) :
    memberHeights (setMember ms key v) ≤ n := by
  rw [memberHeights_le_iff] at before ⊢
  intro m inside
  rcases mem_setMember_or inside with rfl | earlier
  · exact last
  · exact before m earlier

def Shallow (depth : ℕ) (r : Except Stop (Value R × Str)) : Prop :=
  ∀ v rest, r = .ok (v, rest) → depth + height v ≤ stackLimit

structure AllShallow (R : Type) [Doubles R] (fuel : ℕ) : Prop where
  value : ∀ depth cs, Shallow depth (readValue (R := R) fuel depth cs)
  elements : ∀ depth (vs : List (Value R)) cs, depth + heights vs ≤ stackLimit →
    Shallow depth (readElements fuel depth vs cs)
  members : ∀ depth name (ms : List (Str × Value R)) cs, depth + memberHeights ms ≤ stackLimit →
    Shallow depth (readMembers fuel depth name ms cs)

omit [Doubles R] in
private theorem shallow_error (depth : ℕ) (e : Stop) : Shallow (R := R) depth (.error e) := nofun

omit [Doubles R] in
private theorem shallow_ok {depth : ℕ} {v : Value R} (rest : Str)
    (inside : depth + height v ≤ stackLimit) : Shallow depth (.ok (v, rest)) := by
  intro u tail same
  cases same
  exact inside

private theorem height_decodeNumber {token : Str} {v : Value R}
    (decoded : decodeNumber token = some v) : height v = 0 := by
  simp only [decodeNumber] at decoded
  split at decoded
  · obtain ⟨r, -, rfl⟩ := Option.map_eq_some_iff.mp decoded
    rfl
  · split_ifs at decoded <;> cases decoded <;> rfl

private theorem shallow_value (h : AllShallow R fuel) (depth : ℕ) (cs : Str) :
    Shallow depth (readValue (R := R) (fuel + 1) depth cs) := by
  unfold readValue
  split
  · exact shallow_error _ _
  · rename_i within
    have room : depth ≤ stackLimit := not_lt.mp within
    have flat : ∀ (v : Value R) rest, height v = 0 → Shallow depth (.ok (v, rest)) :=
      fun v rest low => shallow_ok rest (by rw [low]; exact room)
    rcases skipCommentTokens cs with ⟨token, rest⟩
    simp only
    cases token.type with
    | objectBegin => exact h.members depth [] [] rest room
    | arrayBegin =>
      simp only
      split
      · exact flat _ _ rfl
      · exact h.elements depth [] rest room
    | number =>
      simp only
      split
      · rename_i v decoded
        exact flat _ _ (height_decodeNumber decoded)
      · exact shallow_error _ _
    | string =>
      simp only
      split
      · exact flat _ _ rfl
      · exact shallow_error _ _
    | true | false | null => exact flat _ _ rfl
    | objectEnd | arrayEnd | arraySeparator | memberSeparator | comment | endOfStream | error =>
      exact shallow_error _ _

private theorem shallow_elements (h : AllShallow R fuel) {depth : ℕ} {vs : List (Value R)}
    (cs : Str) (before : depth + heights vs ≤ stackLimit) :
    Shallow depth (readElements (fuel + 1) depth vs cs) := by
  have inner := h.value (depth + 1) cs
  unfold readElements
  rcases read : readValue (R := R) fuel (depth + 1) cs with stop | ⟨v, rest⟩
  · exact shallow_error _ _
  · have last : depth + 1 + height v ≤ stackLimit := inner v rest read
    have whole : heights (vs ++ [v]) ≤ stackLimit - depth :=
      heights_concat vs v (by omega) (by omega)
    have held : depth + height (.array (vs ++ [v])) ≤ stackLimit := by
      show depth + heights (vs ++ [v]) ≤ stackLimit
      omega
    rcases found : skipCommentTokens rest with ⟨token, after⟩
    simp only [found]
    split
    · exact h.elements depth _ after held
    · exact shallow_ok after held
    · exact shallow_error _ _

private theorem shallow_members (h : AllShallow R fuel) {depth : ℕ} (name : Str)
    {ms : List (Str × Value R)} (cs : Str) (before : depth + memberHeights ms ≤ stackLimit) :
    Shallow depth (readMembers (fuel + 1) depth name ms cs) := by
  unfold readMembers
  rcases skipCommentTokens cs with ⟨tokenName, afterName⟩
  rcases separator : readToken afterName with ⟨colon, afterColon⟩
  simp only [separator]
  by_cases closed : tokenName.type = .objectEnd ∧ name = []
  · rw [if_pos closed]
    exact shallow_ok afterName before
  by_cases named : tokenName.type = .string
  · rw [if_neg closed, if_neg (not_not.mpr named)]
    split
    · exact shallow_error _ _
    · rename_i name' decoded
      split
      · exact shallow_error _ _
      · have inner := h.value (depth + 1) afterColon
        rcases read : readValue (R := R) fuel (depth + 1) afterColon with stop | ⟨v, afterValue⟩
        · exact shallow_error _ _
        · have last : depth + 1 + height v ≤ stackLimit := inner v afterValue read
          have held : depth + height (.object (setMember ms name' v)) ≤ stackLimit := by
            have whole : memberHeights (setMember ms name' v) ≤ stackLimit - depth :=
              memberHeights_setMember (by omega) (by omega)
            show depth + memberHeights (setMember ms name' v) ≤ stackLimit
            omega
          rcases found : readToken afterValue with ⟨comma, afterComma⟩
          simp only [found]
          split
          · exact shallow_ok afterComma held
          · exact h.members depth _ _ afterComma held
          · rcases skipCommentTokens afterComma with ⟨next, afterNext⟩
            simp only
            split
            · exact shallow_ok afterNext held
            · exact h.members depth _ _ afterNext held
          · exact shallow_error _ _
  · rw [if_neg closed, if_pos named]
    exact shallow_error _ _

private theorem allShallow (fuel : ℕ) : AllShallow R fuel := by
  induction fuel with
  | zero =>
    exact ⟨fun depth cs => by simpa only [readValue] using shallow_error _ _,
      fun depth vs cs _ => by simpa only [readElements] using shallow_error _ _,
      fun depth name ms cs _ => by simpa only [readMembers] using shallow_error _ _⟩
  | succ fuel ih =>
    exact ⟨shallow_value ih, fun _ _ cs before => shallow_elements ih cs before,
      fun _ name _ cs before => shallow_members ih name cs before⟩

private theorem height_of_parse {doc : Str} {root : Value R}
    (accepted : parse doc = .ok (some root)) : height root < stackLimit := by
  unfold parse at accepted
  split at accepted
  · rename_i v rest read
    cases accepted
    have inside := (allShallow (2 * doc.length + 1)).value 1 doc root rest read
    omega
  · cases accepted
  · cases accepted

end Accepted

section Rounds

variable {R : Type}

def settled : ℕ → Value R → Value R
  | 0, v => v
  | n + 1, v => reread (inOrder (settled n v))

def SettledText : ℕ → Str → Prop
  | 0, _ => True
  | 1, s => FromCodePoints s
  | _ + 2, s => WellFormed s

private theorem settledText_repair (n : ℕ) {s : Str} (h : SettledText n s) :
    SettledText (n + 1) (repair s) := by
  match n with
  | 0 => exact fromCodePoints_repair s
  | 1 => exact FromCodePoints.wellFormed_repair h
  | n + 2 =>
    have formed : WellFormed s := h
    show WellFormed (repair s)
    rwa [(repair_eq_self_iff s).mpr formed]

private theorem within_settled {D : R → Prop} {bound : ℕ} {root : Value R}
    (h : Within (fun _ => True) D bound root) (n : ℕ) :
    Within (SettledText n) D bound (settled n root) := by
  induction n with
  | zero => exact h
  | succ n ih => exact ih.inOrder.reread fun s known => settledText_repair n known

variable [Doubles R] {hasComment : Value R → Bool}

/-- Every value that the reader finds in a text can be written and read again, any number of
times, and from the second time on it says the same, in UTF-8. -/
theorem accepted_text_settles {doc : Str} {root : Value R}
    (accepted : parse doc = .ok (some root)) (printed : ∀ r ∈ reals root, PrintsBack r)
    (w : BuiltStyledStreamWriter) :
    (∀ n, parse (write (compact hasComment) (settled n root) w) =
      .ok (some (settled (n + 1) root))) ∧
    ∀ n, 2 ≤ n → Encoded (settled n root) ∧
      Value.Same (settled n root) (settled (n + 1) root) := by
  have low : height root ≤ stackLimit - 1 := Nat.le_sub_one_of_lt (height_of_parse accepted)
  have within := within_settled (within_of_height root _ low printed)
  refine ⟨fun n => ?_, fun n twice => ?_⟩
  · have shallow : height (inOrder (settled n root)) < stackLimit :=
      Nat.lt_of_le_pred (by decide) (within n).inOrder.height_le
    rw [parse_write (within n).reals w, if_pos shallow]
    rfl
  · obtain ⟨k, rfl⟩ := Nat.exists_eq_add_of_le' twice
    have formed : Within WellFormed PrintsBack (stackLimit - 1) (settled (k + 2) root) :=
      within (k + 2)
    exact ⟨formed.encoded, same_reread _ formed.encoded⟩

def beyond : Str := [Char.ofNat 0xf5, Char.ofNat 0x80, Char.ofNat 0x80, Char.ofNat 0x80]

/-- It takes both rounds. -/
example : repair (repair beyond) ≠ repair beyond := by decide

def findsString (doc : Str) : Bool :=
  match (parse doc : Except Fault (Option (Value Unit))) with
  | .ok (some (.string _)) => true
  | _ => false

theorem accepted_text_settles_beyond : ∃ s : Str, ∀ n, 2 ≤ n →
    Encoded (settled n (.string s : Value Unit)) ∧
      Value.Same (settled n (.string s : Value Unit)) (settled (n + 1) (.string s)) := by
  have found : findsString ('\x22' :: beyond ++ ['\x22']) = true := by decide +kernel
  unfold findsString at found
  split at found
  · rename_i s accepted
    exact ⟨s, (@accepted_text_settles Unit _ (fun _ => true) _ _ accepted
      (fun r inside => absurd inside List.not_mem_nil) ⟨[], [], [], false, false⟩).2⟩
  · cases found

end Rounds

end Tsender.Json
