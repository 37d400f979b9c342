import Mathlib.Data.List.DropRight
import Mathlib.Data.Set.Function
import Marketplace.Chat

/-! # What the payload of a message tells apart

    Stripping a text twice strips it once, and a JSON string can be read back, so that two
    normalized bodies of one room and sender have the same canonical payload only when they
    are the same. -/

namespace Market

/-! ## Stripping -/

theorem toList_strip (s : String) :
    (strip s).toList = (s.toList.dropWhile isSpace).rdropWhile isSpace := by
  rw [strip, String.toList_ofList]
  rfl

theorem strip_strip (s : String) : strip (strip s) = strip s := by
  have hlist : ((strip s).toList.dropWhile isSpace).rdropWhile isSpace = (strip s).toList := by
    rw [toList_strip]
    generalize hl : s.toList.dropWhile isSpace = l
    have hfront : (l.rdropWhile isSpace).dropWhile isSpace = l.rdropWhile isSpace := by
      rw [List.dropWhile_eq_self_iff]
      intro hpos
      -- what is left begins as the text without its leading spaces
      have hpre : l.rdropWhile isSpace <+: l := List.rdropWhile_prefix isSpace l
      have hlen : 0 < l.length := Nat.lt_of_lt_of_le hpos hpre.length_le
      have hself : l.dropWhile isSpace = l := by
        rw [← hl, List.dropWhile_idempotent]
      rw [hpre.getElem hpos]
      exact List.dropWhile_eq_self_iff.mp hself hlen
    rw [hfront, List.rdropWhile_idempotent]
  calc strip (strip s) = String.ofList (strip (strip s)).toList := (String.ofList_toList).symm
    _ = String.ofList (strip s).toList := by rw [toList_strip, hlist]
    _ = strip s := String.ofList_toList

theorem mem_strip {s : String} {c : Char} (h : c ∈ (strip s).toList) : c ∈ s.toList := by
  rw [toList_strip] at h
  exact (List.dropWhile_sublist isSpace).subset ((List.rdropWhile_prefix isSpace _).subset h)

/-- **NORMALIZATION** of a normalized text changes nothing. -/
theorem normalizeChatText_again {value body : String} (h : normalizeChatText value = .ok body) :
    normalizeChatText body = .ok body := by
  rw [normalizeChatText] at h
  split at h
  · exact nomatch h
  · next hcontrol =>
      dsimp only at h
      split at h
      · exact nomatch h
      · next hempty =>
          split at h
          · exact nomatch h
          · next hbytes =>
              cases h
              have hnone : (strip value).toList.any forbiddenControl = false := by
                rw [Bool.eq_false_iff]
                intro hany
                obtain ⟨c, hc, hbad⟩ := List.any_eq_true.mp hany
                exact hcontrol (List.any_eq_true.mpr ⟨c, mem_strip hc, hbad⟩)
              rw [normalizeChatText, hnone, if_neg Bool.false_ne_true]
              dsimp only
              rw [strip_strip, if_neg hempty, if_neg hbytes]

/-! ## JSON strings -/

/-- The value of a hexadecimal digit. -/
def hexValue (c : Char) : Nat :=
  if c.toNat < 58 then c.toNat - 48 else c.toNat - 87

/-- One character of a JSON string, and the rest. -/
def jsonUnescape : List Char → Option (Char × List Char)
  | '\\' :: '"' :: r => some ('"', r)
  | '\\' :: '\\' :: r => some ('\\', r)
  | '\\' :: 'n' :: r => some ('\n', r)
  | '\\' :: 'r' :: r => some ('\r', r)
  | '\\' :: 't' :: r => some ('\t', r)
  | '\\' :: 'f' :: r => some (Char.ofNat 12, r)
  | '\\' :: 'b' :: r => some (Char.ofNat 8, r)
  | '\\' :: 'u' :: _ :: _ :: a :: b :: r => some (Char.ofNat (16 * hexValue a + hexValue b), r)
  | c :: r => some (c, r)
  | [] => none

/-- The digits of a control character. -/
theorem hexDigits_control : ∀ n < 32,
    hexDigits 4 n = ['0', '0', Nat.digitChar (n / 16), Nat.digitChar (n % 16)] ∧
      16 * hexValue (Nat.digitChar (n / 16)) + hexValue (Nat.digitChar (n % 16)) = n := by
  decide

theorem ofNat_toNat_eq {c : Char} {n : Nat} (h : c.toNat = n) : Char.ofNat n = c := by
  rw [← h]
  exact Char.ofNat_toNat c

/-- **READING BACK** the first character. -/
theorem jsonUnescape_escape (c : Char) (r : List Char) :
    jsonUnescape (jsonEscape c ++ r) = some (c, r) := by
  rw [jsonEscape]
  by_cases hquote : c = '"'
  · subst hquote
    rfl
  by_cases hslash : c = '\\'
  · subst hslash
    rfl
  by_cases hn : c = '\n'
  · subst hn
    rfl
  by_cases hr : c = '\r'
  · subst hr
    rfl
  by_cases ht : c = '\t'
  · subst ht
    rfl
  rw [if_neg (by simpa using hquote), if_neg (by simpa using hslash), if_neg (by simpa using hn),
    if_neg (by simpa using hr), if_neg (by simpa using ht)]
  by_cases hf : c.toNat = 12
  · rw [if_pos (by simpa using hf), ← ofNat_toNat_eq hf]
    rfl
  by_cases hb : c.toNat = 8
  · rw [if_neg (by simpa using hf), if_pos (by simpa using hb), ← ofNat_toNat_eq hb]
    rfl
  rw [if_neg (by simpa using hf), if_neg (by simpa using hb)]
  by_cases hcontrol : c.toNat < 32
  · obtain ⟨hdigits, hvalue⟩ := hexDigits_control c.toNat hcontrol
    rw [if_pos hcontrol, hdigits]
    show some (Char.ofNat (16 * hexValue _ + hexValue _), r) = _
    rw [hvalue, Char.ofNat_toNat]
  · rw [if_neg hcontrol]
    show jsonUnescape (c :: r) = some (c, r)
    unfold jsonUnescape
    split <;> simp_all

theorem flatMap_jsonEscape_injective {l l' : List Char}
    (h : l.flatMap jsonEscape = l'.flatMap jsonEscape) : l = l' := by
  induction l generalizing l' with
  | nil =>
      cases l' with
      | nil => rfl
      | cons c l' =>
          have hread := jsonUnescape_escape c (l'.flatMap jsonEscape)
          rw [List.flatMap_cons] at h
          rw [← h] at hread
          exact nomatch hread
  | cons c l ih =>
      have hread := jsonUnescape_escape c (l.flatMap jsonEscape)
      rw [← List.flatMap_cons, h] at hread
      cases l' with
      | nil => exact nomatch hread
      | cons c' l' =>
          rw [List.flatMap_cons, jsonUnescape_escape] at hread
          obtain ⟨hc, hrest⟩ := Prod.ext_iff.mp (Option.some.inj hread)
          rw [show c' = c from hc, ih hrest.symm]

theorem jsonString_injective {a b : String} (h : jsonString a = jsonString b) : a = b := by
  have hlist := congrArg String.toList h
  simp only [jsonString, String.toList_append, String.toList_ofList] at hlist
  have hbody := List.append_cancel_left (List.append_cancel_right hlist)
  exact String.toList_inj.mp (flatMap_jsonEscape_injective hbody)

/-! ## Payloads -/

/-- The payloads that messages are hashed from. -/
def canonicalMessages : Set String :=
  {x | ∃ room sender body, normalizeChatText body = .ok body ∧
    x = canonicalMessage room sender body}

theorem canonicalMessage_injective {room sender : Nat} {a b : String}
    (h : canonicalMessage room sender a = canonicalMessage room sender b) : a = b := by
  have hlist := congrArg String.toList h
  simp only [canonicalMessage, String.toList_append, List.append_assoc] at hlist
  have hbody := List.append_cancel_left hlist
  have hsame := List.append_cancel_right hbody
  exact jsonString_injective (String.toList_inj.mp hsame)

/-- **HASHES** of normalized bodies of one room and sender tell them apart. -/
theorem sha256_eq_iff {sha256 : String → String} (hsha : Set.InjOn sha256 canonicalMessages)
    {room sender : Nat} {a b : String} (ha : normalizeChatText a = .ok a)
    (hb : normalizeChatText b = .ok b) :
    sha256 (canonicalMessage room sender a) = sha256 (canonicalMessage room sender b) ↔
      a = b := by
  constructor
  · intro h
    exact canonicalMessage_injective
      (hsha ⟨room, sender, a, ha, rfl⟩ ⟨room, sender, b, hb, rfl⟩ h)
  · rintro rfl
    rfl

/-- The hash of a normalized body. -/
theorem canonicalPayloadSha256_eq {sha256 : String → String} {room sender : Nat} {body : String}
    (h : normalizeChatText body = .ok body) :
    canonicalPayloadSha256 sha256 room sender body =
      .ok (sha256 (canonicalMessage room sender body)) := by
  rw [canonicalPayloadSha256, h]
  rfl

end Market
