import Marketplace.ChatPayload
import Marketplace.Decimals
import Marketplace.ExactlyOnce

/-! # Payloads tell requests apart

    Canonical payloads are JSON objects with an amount, and either a recipient or a room.
    A quoted text ends at the first quote that is not escaped, so that the recipient can
    say nothing that reads like another field. -/

namespace Market

open TxnProgram

variable {s : Store}

/-! ## Quoted texts -/

/-- What is written for a character does not begin with a quote. -/
theorem jsonEscape_head (c : Char) : ∃ x r, jsonEscape c = x :: r ∧ x ≠ '"' := by
  rw [jsonEscape]
  repeat' split
  all_goals first
    | exact ⟨_, _, rfl, by decide⟩
    | skip
  next hquote _ _ _ _ _ _ _ =>
    refine ⟨c, [], rfl, fun h => hquote ?_⟩
    rw [h]
    rfl

/-- **END OF A TEXT**: the first quote that is not escaped. -/
theorem quoted_split {l l' r r' : List Char}
    (h : l.flatMap jsonEscape ++ '"' :: r = l'.flatMap jsonEscape ++ '"' :: r') :
    l = l' ∧ r = r' := by
  induction l generalizing l' with
  | nil =>
      cases l' with
      | nil => exact ⟨rfl, (List.cons.inj h).2⟩
      | cons c l' =>
          obtain ⟨x, t, hx, hquote⟩ := jsonEscape_head c
          rw [List.flatMap_cons, hx] at h
          exact absurd (List.cons.inj h).1.symm hquote
  | cons c l ih =>
      cases l' with
      | nil =>
          obtain ⟨x, t, hx, hquote⟩ := jsonEscape_head c
          rw [List.flatMap_cons, hx] at h
          exact absurd (List.cons.inj h).1 hquote
      | cons c' l' =>
          rw [List.flatMap_cons, List.flatMap_cons, List.append_assoc, List.append_assoc] at h
          have hread := jsonUnescape_escape c (l.flatMap jsonEscape ++ '"' :: r)
          rw [h, jsonUnescape_escape] at hread
          obtain ⟨hc, hrest⟩ := Prod.mk.inj (Option.some.inj hread)
          obtain ⟨hl, hr⟩ := ih hrest.symm
          rw [hc, hl]
          exact ⟨rfl, hr⟩

/-- A quoted text and what follows it. -/
theorem jsonString_split {a b : String} {r r' : List Char}
    (h : (jsonString a).toList ++ r = (jsonString b).toList ++ r') : a = b ∧ r = r' := by
  have hquoted : ∀ x : String, (jsonString x).toList =
      '"' :: (x.toList.flatMap jsonEscape ++ ['"']) := by
    intro x
    simp [jsonString]
  rw [hquoted, hquoted, List.cons_append, List.cons_append, List.append_assoc,
    List.append_assoc] at h
  obtain ⟨hlist, hr⟩ := quoted_split (List.cons.inj h).2
  exact ⟨String.toList_inj.mp hlist, hr⟩

/-! ## Amounts -/

/-- The two places after the point. -/
def centsDigits (cents : Nat) : List Char :=
  (if cents < 10 then ['0'] else []) ++ Nat.toDigits 10 cents

theorem ofDigitChars_centsDigits (cents : Nat) :
    Nat.ofDigitChars 10 (centsDigits cents) 0 = cents := by
  rw [centsDigits]
  split
  · rw [Nat.ofDigitChars_append, Nat.ofDigitChars_cons, Nat.ofDigitChars_nil]
    exact Nat.ofDigitChars_ten_toDigits
  · exact Nat.ofDigitChars_ten_toDigits

theorem format2f_toList (m : Money) : (format2f m).toList =
    (if m < 0 then ['-'] else []) ++
      (Nat.toDigits 10 (m.natAbs / 100) ++ '.' :: centsDigits (m.natAbs % 100)) := by
  have hpad : ∀ b : Prop, [Decidable b] → ∀ x : String,
      (if b then x else "").toList = if b then x.toList else [] := by
    intro b _ x
    split <;> rfl
  simp only [format2f, centsDigits, String.toList_append, hpad, Nat.toString_eq_repr,
    Nat.toList_repr, List.append_assoc]
  rfl

theorem eq_of_natAbs {m n : Int} (h : m.natAbs = n.natAbs) (hsign : m < 0 ↔ n < 0) : m = n := by
  omega

/-- **AMOUNTS** are written differently when they differ. -/
theorem format2f_injective : Function.Injective format2f := by
  intro m n h
  have hlist : (format2f m).toList = (format2f n).toList := by rw [h]
  rw [format2f_toList, format2f_toList] at hlist
  -- the same number of hundredths
  have habs : ∀ {a b : Nat}, Nat.toDigits 10 (a / 100) ++ '.' :: centsDigits (a % 100) =
      Nat.toDigits 10 (b / 100) ++ '.' :: centsDigits (b % 100) → a = b := by
    intro a b hab
    have hpoint : ∀ r : List Char, Decimals.NoDigit ('.' :: r) := by
      intro r c hc
      cases hc
      rfl
    obtain ⟨hwhole, hcents⟩ := Decimals.split_digits (fun _ => Decimals.isDigit_of_mem)
      (fun _ => Decimals.isDigit_of_mem) (hpoint _) (hpoint _) hab
    have h1 := Decimals.toDigits_injective hwhole
    have h2 := congrArg (Nat.ofDigitChars 10 · 0) (List.cons.inj hcents).2
    simp only [ofDigitChars_centsDigits] at h2
    omega
  -- a sign is not a digit
  have hsign : ∀ (a : Nat) (r l : List Char), '-' :: l ≠ Nat.toDigits 10 a ++ r := by
    intro a r l heq
    cases hd : Nat.toDigits 10 a with
    | nil => exact Nat.toDigits_ne_nil hd
    | cons c t =>
        rw [hd] at heq
        have hc := Decimals.isDigit_of_mem (n := a) (c := c) (by rw [hd]; exact List.mem_cons_self)
        rw [← (List.cons.inj heq).1] at hc
        exact nomatch hc
  by_cases hm : m < 0
  · by_cases hn : n < 0
    · rw [if_pos hm, if_pos hn] at hlist
      exact eq_of_natAbs (habs (List.cons.inj hlist).2) ⟨fun _ => hn, fun _ => hm⟩
    · rw [if_pos hm, if_neg hn] at hlist
      exact absurd hlist (hsign _ _ _)
  · by_cases hn : n < 0
    · rw [if_neg hm, if_pos hn] at hlist
      exact absurd hlist.symm (hsign _ _ _)
    · rw [if_neg hm, if_neg hn] at hlist
      exact eq_of_natAbs (habs hlist) ⟨fun h => absurd h hm, fun h => absurd h hn⟩

/-! ## Payloads -/

/-- What both formats begin with. -/
theorem payload_amount {a b : Money} {r r' : List Char}
    (h : "\x7b\"amount\":".toList ++ ((jsonString (format2f a)).toList ++ r) =
      "\x7b\"amount\":".toList ++ ((jsonString (format2f b)).toList ++ r')) : a = b ∧ r = r' := by
  obtain ⟨hamount, hr⟩ := jsonString_split (List.append_cancel_left h)
  exact ⟨format2f_injective hamount, hr⟩

theorem canonicalPayload_toList (recipient : String) (amount : Money) :
    (canonicalPayload recipient amount).toList = "\x7b\"amount\":".toList ++
      ((jsonString (format2f amount)).toList ++ (",\"recipient\":".toList ++
        ((jsonString recipient).toList ++ ",\"version\":1\x7d".toList))) := by
  simp only [canonicalPayload, String.toList_append, List.append_assoc]

theorem canonicalRoomPayload_toList (room : Nat) (amount : Money) :
    (canonicalRoomPayload room amount).toList = "\x7b\"amount\":".toList ++
      ((jsonString (format2f amount)).toList ++ (",\"room_id\":".toList ++
        (Nat.toDigits 10 room ++ ",\"version\":2\x7d".toList))) := by
  simp only [canonicalRoomPayload, String.toList_append, List.append_assoc,
    Nat.toString_eq_repr, Nat.toList_repr]

theorem canonicalPayload_injective {r r' : String} {a a' : Money}
    (h : canonicalPayload r a = canonicalPayload r' a') : r = r' ∧ a = a' := by
  have hlist := congrArg String.toList h
  rw [canonicalPayload_toList, canonicalPayload_toList] at hlist
  obtain ⟨hamount, hrest⟩ := payload_amount hlist
  exact ⟨(jsonString_split (List.append_cancel_left hrest)).1, hamount⟩

theorem canonicalRoomPayload_injective {m m' : Nat} {a a' : Money}
    (h : canonicalRoomPayload m a = canonicalRoomPayload m' a') : m = m' ∧ a = a' := by
  have hlist := congrArg String.toList h
  rw [canonicalRoomPayload_toList, canonicalRoomPayload_toList] at hlist
  obtain ⟨hamount, hrest⟩ := payload_amount hlist
  exact ⟨Decimals.toDigits_injective
    (List.append_cancel_right (List.append_cancel_left hrest)), hamount⟩

theorem canonicalPayload_ne_room {r : String} {m : Nat} {a a' : Money} :
    canonicalPayload r a ≠ canonicalRoomPayload m a' := by
  intro h
  have hlist := congrArg String.toList h
  rw [canonicalPayload_toList, canonicalRoomPayload_toList] at hlist
  have hname := congrArg (List.take 4) (payload_amount hlist).2
  exact nomatch hname

/-- What a call asks for. -/
theorem payload_iff (x y : TransferCall) :
    x.payload = y.payload ↔ x.endpoint = y.endpoint ∧ x.amount = y.amount := by
  obtain ⟨user, key, amount, endpoint⟩ := x
  obtain ⟨user', key', amount', endpoint'⟩ := y
  constructor
  · intro h
    cases endpoint with
    | direct recipient =>
        cases endpoint' with
        | direct recipient' =>
            obtain ⟨rfl, rfl⟩ := canonicalPayload_injective h
            exact ⟨rfl, rfl⟩
        | room room => exact absurd h canonicalPayload_ne_room
    | room room =>
        cases endpoint' with
        | direct recipient => exact absurd h.symm canonicalPayload_ne_room
        | room room' =>
            obtain ⟨rfl, rfl⟩ := canonicalRoomPayload_injective h
            exact ⟨rfl, rfl⟩
  · rintro ⟨hendpoint, hamount⟩
    have hendpoint : endpoint = endpoint' := hendpoint
    have hamount : amount = amount' := hamount
    subst hendpoint hamount
    rfl

/-- **SAME REQUEST**: the two formats are injective in what they say and disjoint, for
    every recipient, room and amount; and a call whose key has the request of another call
    gets its answer exactly when both ask for the same. -/
theorem payloads_injective :
    (∀ (r r' : String) (a a' : Money), canonicalPayload r a = canonicalPayload r' a' →
      r = r' ∧ a = a') ∧
    (∀ (m m' : Nat) (a a' : Money), canonicalRoomPayload m a = canonicalRoomPayload m' a' →
      m = m' ∧ a = a') ∧
    (∀ (r : String) (m : Nat) (a a' : Money),
      canonicalPayload r a ≠ canonicalRoomPayload m a') ∧
    ∀ (p : Platform) (x y : TransferCall) (sender : Nat) (r : TransferRequest) (s : Store)
      (ids : Nat → Nat) (now : Time), KeyStored x sender r s →
      r.canonicalPayload = y.payload →
      (x.endpoint = y.endpoint ∧ x.amount = y.amount →
        call (x.run p) ids now s = (.ok (replayOf r), s)) ∧
      (¬ (x.endpoint = y.endpoint ∧ x.amount = y.amount) →
        call (x.run p) ids now s = (.error .idempotencyConflict, s)) := by
  refine ⟨fun _ _ _ _ => canonicalPayload_injective,
    fun _ _ _ _ => canonicalRoomPayload_injective, fun _ _ _ _ => canonicalPayload_ne_room, ?_⟩
  intro p x y sender r s ids now hstored hpayload
  rw [call_later hstored, hpayload, ← payload_iff]
  constructor
  · intro hsame
    rw [if_pos hsame]
  · intro hdiffers
    rw [if_neg hdiffers]

end Market
