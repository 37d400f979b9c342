import Marketplace.LedgerRuns
import Marketplace.PayloadText

/-! # Amounts from the request to the inbox

    The views that take a payment (`transfers/views.py`) and the presenter of the inbox
    (`notifications/presentation.py`).  The text of an amount is read into hundredths,
    and written again as a payload, as an answer and for display. -/

namespace Market

open TxnProgram

/-! ## Texts of amounts -/

/-- `[1-9][0-9]{0,7}`, matched against the whole text. -/
def amountMatches (text : String) : Bool :=
  match text.toList with
  | [] => false
  | first :: rest => first.isDigit && first != '0' && decide (rest.length ≤ 7) &&
      rest.all Char.isDigit

/-- `int(text)`, of digits. -/
def intOf (text : String) : Nat := Nat.ofDigitChars 10 text.toList 0

/-- `Decimal(text)`, of digits, in hundredths. -/
def decimalOf (text : String) : Money := 100 * intOf text

/-- What both views make of the text of an amount: `none` where they raise. -/
def parseAmount (rawAmount : String) : Option Money :=
  if amountMatches rawAmount then
    let amount := decimalOf rawAmount
    if 100 ≤ amount && amount ≤ 9999999900 then some amount else none
  else none

/-! ## The views -/

/-- `JsonResponse(body, status=status)`. -/
structure JsonResponse where
  body : ResponseBody
  status : Nat
  deriving DecidableEq

/-- `_error(code, status)`. -/
def errorResponse (code : String) (status : Nat) : JsonResponse := ⟨.error code, status⟩

/-- A request: the user when it is authenticated, and the fields that `json.loads` finds,
    `none` where it raises, or finds other fields or a value that is no text. -/
structure HttpRequest (β : Type) where
  user : Option Nat
  contentType : String
  data : Option β

structure TransferFields where
  recipient : String
  amount : String
  idempotencyKey : String

structure RoomTransferFields where
  amount : String
  idempotencyKey : String

/-- `key = UUID(raw_key)`, which must be the text it was read from. -/
def parseKey (p : Platform) (rawKey : String) : Option Uuid :=
  (p.parseUuid rawKey).filter fun key => uuidStr key == rawKey

/-- The answer to what a service returns or raises. -/
def respond (m : M TransferResult) : M JsonResponse :=
  Prog.tryCatch (do let result ← m; return ⟨result.body, result.status⟩) fun
    | .idempotencyConflict => return errorResponse "IDEMPOTENCY_CONFLICT" 409
    | .transferUnavailable => return errorResponse "TRANSFER_UNAVAILABLE" 503
    | e => raise e

/-- The recipient, the amount and the key that `create_transfer` admits. -/
def TransferFields.parse (p : Platform) (data : TransferFields) :
    Option (String × Money × Uuid) :=
  if data.recipient.isEmpty || decide (150 < data.recipient.length) then none
  else do
    let amount ← parseAmount data.amount
    let key ← parseKey p data.idempotencyKey
    return (data.recipient, amount, key)

def RoomTransferFields.parse (p : Platform) (data : RoomTransferFields) :
    Option (Money × Uuid) := do
  let amount ← parseAmount data.amount
  let key ← parseKey p data.idempotencyKey
  return (amount, key)

def createTransfer (p : Platform) (request : HttpRequest TransferFields) : M JsonResponse :=
  match request.user with
  | none => return errorResponse "AUTH_REQUIRED" 401
  | some user =>
      if request.contentType != "application/json" then
        return errorResponse "INVALID_REQUEST" 400
      else match request.data.bind (TransferFields.parse p) with
        | none => return errorResponse "INVALID_REQUEST" 400
        | some (recipient, amount, key) => respond (transfer p user recipient amount key none)

def createRoomTransfer (p : Platform) (request : HttpRequest RoomTransferFields)
    (room : Nat) : M JsonResponse :=
  match request.user with
  | none => return errorResponse "AUTH_REQUIRED" 401
  | some user =>
      if request.contentType != "application/json" then
        return errorResponse "INVALID_REQUEST" 400
      else match request.data.bind (RoomTransferFields.parse p) with
        | none => return errorResponse "INVALID_REQUEST" 400
        | some (amount, key) => respond (transferForProductRoom p user room amount key)

/-! ## The inbox -/

/-- A notification as the inbox shows it. -/
structure InboxNotification where
  id : Nat
  title : String
  detail : String
  createdAt : Time
  isUnread : Bool
  deriving DecidableEq

/-- `payload.get(field)`. -/
def JsonObject.get (payload : JsonObject) (field : String) : Option Json :=
  payload.lookup field

/-- `_transfer_detail`. -/
def transferDetail (payload : JsonObject) (action : String) : String :=
  match JsonObject.get payload "amount" with
  | some (.str amount) =>
      if amountMatches amount then
        let displayAmount := Decimals.thousands (intOf amount)
        match JsonObject.get payload "counterparty_name" with
        | some (.str counterpartyName) =>
            if (strip counterpartyName).isEmpty then displayAmount ++ "원을 " ++ action
            else strip counterpartyName ++ "님에게 " ++ displayAmount ++ "원을 " ++ action
        | _ => displayAmount ++ "원을 " ++ action
      else "송금 알림이 도착했습니다."
  | _ => "송금 알림이 도착했습니다."

/-- `_inbox_notification`, of a row with the two columns that only the inbox reads. -/
def inboxNotification (n : Notification) (createdAt : Time) (readAt : Option Time) :
    InboxNotification :=
  let shown : String × String :=
    if n.kind == "TRANSFER_SENT" then ("송금 완료", transferDetail n.payload "보냈습니다")
    else if n.kind == "TRANSFER_RECEIVED" then
      ("송금 수신", transferDetail n.payload "받았습니다")
    else ("새 알림", "알림함에서 내용을 확인하세요.")
  { id := n.pk, title := shown.1, detail := shown.2, createdAt := createdAt,
    isUnread := readAt.isNone }

/-! ## What is read -/

/-- The text of an amount. -/
def Amount.text (a : Amount) : String := toString a.won

theorem Amount.text_toList (a : Amount) : a.text.toList = Nat.toDigits 10 a.won := by
  rw [Amount.text, Nat.toString_eq_repr, Nat.toList_repr]

theorem Amount.intOf_text (a : Amount) : intOf a.text = a.won := by
  rw [intOf, a.text_toList, Nat.ofDigitChars_ten_toDigits]

/-- A number is not written with a zero in front. -/
theorem toDigits_head {n : Nat} (hn : 0 < n) : (Nat.toDigits 10 n).head? ≠ some '0' := by
  induction n using Nat.strongRecOn with
  | ind n ih =>
      by_cases hlt : n < 10
      · rw [Nat.toDigits_of_lt_base hlt]
        have hdigit : ∀ k < 10, 0 < k → Nat.digitChar k ≠ '0' := by decide
        simpa using hdigit n hlt hn
      · have hpos : 0 < n / 10 := by omega
        have hsplit := Nat.toDigits_append_toDigits (b := 10) (by omega) hpos
          (Nat.mod_lt n (by omega))
        rw [Nat.div_add_mod] at hsplit
        rw [← hsplit, List.head?_append]
        have hrest := ih (n / 10) (by omega) hpos
        cases hd : (Nat.toDigits 10 (n / 10)).head? with
        | none => exact absurd (List.head?_eq_none_iff.mp hd) Nat.toDigits_ne_nil
        | some c =>
            rw [hd] at hrest
            exact hrest

/-- The pattern has what an amount is written like, and nothing else. -/
theorem amountMatches_text (a : Amount) : amountMatches a.text = true := by
  have hlen : (Nat.toDigits 10 a.won).length ≤ 8 :=
    (Nat.length_toDigits_le_iff (by omega) (by omega)).mpr (by have := a.below; omega)
  have hhead := toDigits_head a.pos
  rw [amountMatches, a.text_toList]
  cases hd : Nat.toDigits 10 a.won with
  | nil => exact absurd hd Nat.toDigits_ne_nil
  | cons first rest =>
      rw [hd] at hlen hhead
      have hdigits : ∀ c ∈ first :: rest, c.isDigit = true := by
        rw [← hd]
        exact fun _ => Decimals.isDigit_of_mem
      have hne : first ≠ '0' := fun he => hhead (by rw [he]; rfl)
      have hrest : rest.length ≤ 7 := by
        rw [List.length_cons] at hlen
        omega
      simp only [List.mem_cons, forall_eq_or_imp] at hdigits
      simp [hdigits.1, hne, hrest, List.all_eq_true.mpr hdigits.2]

theorem text_of_matches {text : String} (h : amountMatches text = true) :
    ∃ a : Amount, text = a.text := by
  rw [amountMatches] at h
  cases hl : text.toList with
  | nil => rw [hl] at h; cases h
  | cons first rest =>
      rw [hl] at h
      simp only [Bool.and_eq_true, bne_iff_ne, decide_eq_true_eq, List.all_eq_true] at h
      obtain ⟨⟨⟨hfirst, hzero⟩, hlen⟩, hrest⟩ := h
      have hdigits : ∀ c ∈ text.toList, c.isDigit = true := by
        rw [hl]
        simpa using ⟨hfirst, hrest⟩
      have hwritten := Decimals.toDigits_ofDigitChars hdigits (by rw [hl]; simp)
        (by rw [hl]; simpa using hzero)
      have hshort : intOf text < 10 ^ 8 := by
        refine (Nat.length_toDigits_le_iff (by omega) (by omega)).mp ?_
        rw [intOf, hwritten, hl, List.length_cons]
        omega
      have hpos : 0 < intOf text := by
        refine Nat.pos_of_ne_zero fun h0 => hzero ?_
        rw [intOf] at h0
        rw [h0, Nat.toDigits_zero, hl] at hwritten
        exact (List.cons.inj hwritten).1.symm
      refine ⟨⟨intOf text, hpos, by omega⟩, String.toList_inj.mp ?_⟩
      rw [Amount.text_toList]
      exact hwritten.symm

/-- **READING**: the texts that the views admit are the amounts. -/
theorem parseAmount_iff {rawAmount : String} {m : Money} :
    parseAmount rawAmount = some m ↔ ∃ a : Amount, rawAmount = a.text ∧ m = a.money := by
  constructor
  · intro h
    rw [parseAmount] at h
    split at h
    · rename_i hmatches
      obtain ⟨a, ha⟩ := text_of_matches hmatches
      refine ⟨a, ha, ?_⟩
      dsimp only at h
      split at h
      · cases h
        rw [decimalOf, ha, a.intOf_text]
        rfl
      · cases h
    · cases h
  · rintro ⟨a, rfl, rfl⟩
    have hrange : (100 : Int) ≤ 100 * a.won ∧ (100 : Int) * a.won ≤ 9999999900 := by
      have := a.pos
      have := a.below
      omega
    rw [parseAmount, if_pos (amountMatches_text a)]
    simp only [decimalOf, a.intOf_text, Amount.money]
    rw [if_pos (by simpa using hrange)]

/-! ## What is written -/

/-- Nothing is rounded away from a whole number. -/
theorem format0f_whole (n : Nat) : format0f (100 * n) = toString n := by
  have habs : ((100 : Int) * n).natAbs = 100 * n := by omega
  have hsign : ¬ ((100 : Int) * n < 0) := by omega
  rw [format0f, habs, if_neg hsign]
  simp

theorem format2f_whole (n : Nat) : format2f (100 * n) = toString n ++ ".00" := by
  have habs : ((100 : Int) * n).natAbs = 100 * n := by omega
  have hsign : ¬ ((100 : Int) * n < 0) := by omega
  rw [format2f, habs, if_neg hsign]
  simp [String.append_assoc]
  rfl

theorem Amount.format0f (a : Amount) : format0f a.money = a.text := format0f_whole a.won

theorem Amount.format2f (a : Amount) : format2f a.money = a.text ++ ".00" :=
  format2f_whole a.won

/-- Digits and points are not escaped. -/
theorem jsonEscape_digit {c : Char} (h : 46 ≤ c.toNat ∧ c.toNat ≤ 57) : jsonEscape c = [c] := by
  have hne : ∀ d : Char, d.toNat < 46 ∨ 57 < d.toNat → (c == d) = false := by
    intro d hd
    rw [beq_eq_false_iff_ne]
    rintro rfl
    omega
  have hcode : ∀ n : Nat, n < 46 → (c.toNat == n) = false := by
    intro n hn
    rw [beq_eq_false_iff_ne]
    omega
  have hlow : ¬ c.toNat < 32 := by omega
  simp [jsonEscape, hne '"' (by decide), hne '\\' (by decide), hne '\n' (by decide),
    hne '\r' (by decide), hne '\t' (by decide), hcode 12, hcode 8, hlow]

/-- An amount is quoted as it is. -/
theorem Amount.jsonString_format2f (a : Amount) :
    jsonString (Market.format2f a.money) = "\"" ++ (a.text ++ ".00") ++ "\"" := by
  have hplain : ∀ c ∈ (a.text ++ ".00").toList, jsonEscape c = [c] := by
    intro c hc
    refine jsonEscape_digit ?_
    rw [String.toList_append, a.text_toList] at hc
    rcases List.mem_append.mp hc with hc | hc
    · have hdigit : 48 ≤ c.toNat ∧ c.toNat ≤ 57 :=
        Char.isDigit_iff_toNat.mp (Decimals.isDigit_of_mem hc)
      omega
    · have hc' : c = '.' ∨ c = '0' := by simpa using hc
      rcases hc' with rfl | rfl <;> decide
  have hflat : (a.text ++ ".00").toList.flatMap jsonEscape = (a.text ++ ".00").toList := by
    rw [List.flatMap_congr hplain, List.flatMap_singleton']
  rw [a.format2f, jsonString, hflat, String.ofList_toList]

/-- **DISPLAY**: the presenter accepts what a notification says of an amount. -/
theorem transferDetail_payload (t : Uuid) (a : Amount) (name action : String) :
    transferDetail (transferPayload t a.money name) action =
      (if (strip name).isEmpty then "" else strip name ++ "님에게 ") ++
        Decimals.thousands a.won ++ "원을 " ++ action := by
  have hamount : JsonObject.get (transferPayload t a.money name) "amount" =
      some (.str a.text) := by
    rw [← a.format0f]
    rfl
  have hname : JsonObject.get (transferPayload t a.money name) "counterparty_name" =
      some (.str name) := rfl
  simp only [transferDetail, hamount, hname, amountMatches_text, if_true, a.intOf_text]
  split
  · simp
  · rfl

end Market
