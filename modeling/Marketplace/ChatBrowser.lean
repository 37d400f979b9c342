import Marketplace.HistoryPages

/-! # The chat page in a browser

    `chat/static/chat/chat.js` keeps the set of messages it has shown and the greatest key
    of them as its cursor.  Live events and pages of the history both advance the cursor,
    and every request for the history starts from it.  The server is a run of senders and
    readers; events may be lost or late, and connections may break.

    What is between the first page and a cursor that was sent has to be shown already: a
    page of the history does not bring it. -/

namespace Market

open TxnProgram TxnInterleaving TxnLogic TxnProtection TxnSoundness TxnBody TxnFrames
  TxnInvariants TxnSchedule

/-! ## chat.js -/

/-- `Number(...)` of an integer that is not negative: the closest double. -/
def jsNumber (n : Nat) : Nat :=
  if n < 2 ^ 53 then n
  else
    let unit := 2 ^ (Nat.log2 n - 52)
    let low := n / unit * unit
    let rest := n - low
    if 2 * rest < unit || (2 * rest == unit && n / unit % 2 == 0) then low else low + unit

/-- `Number.isSafeInteger`. -/
def isSafeInteger (x : Nat) : Bool := decide (x < 2 ^ 53)

/-- What the script keeps of a page, and the messages that the page lists, oldest first. -/
structure ChatPage where
  seen : List Nat := []
  cursor : Nat := 0
  list : List Nat := []

/-- The loop over `[data-message-id]` of the page as the server rendered it. -/
def loadPage (ids : List Nat) : ChatPage where
  seen := ids.map jsNumber
  cursor := ids.foldl (fun cursor n => max cursor (jsNumber n)) 0
  list := ids

/-- `appendMessage`. -/
def appendMessage (page : ChatPage) (serverMessageId : Nat) : ChatPage :=
  let id := jsNumber serverMessageId
  if !isSafeInteger id || page.seen.contains id then page
  else { seen := id :: page.seen, cursor := max page.cursor id, list := page.list ++ [id] }

/-- The messages that `room_detail` renders: the last hundred. -/
def roomDetailIds (room : Nat) (s : Store) : List Nat :=
  ((((s.messages.filter (·.room == room)).insertionSort fun a b => b.pk ≤ a.pk).take
    100).reverse).map (·.pk)

/-! ## Doubles -/

/-- A safe integer is the same number in the browser. -/
theorem jsNumber_safe {n : Nat} (h : n < 2 ^ 53) : jsNumber n = n := if_pos h

/-- An unsafe one is not taken for safe after rounding. -/
theorem not_safe_jsNumber {n : Nat} (h : ¬ n < 2 ^ 53) : isSafeInteger (jsNumber n) = false := by
  have hne : n ≠ 0 := by omega
  have hlog : 53 ≤ Nat.log2 n := (Nat.le_log2 hne).mpr (Nat.le_of_not_lt h)
  have hself : 2 ^ Nat.log2 n ≤ n := Nat.log2_self_le hne
  have hpow : 2 ^ 53 ≤ 2 ^ Nat.log2 n := Nat.pow_le_pow_right (by decide) hlog
  -- rounding goes to a multiple of the unit, which divides the power of two below
  have hlow : 2 ^ Nat.log2 n ≤
      n / 2 ^ (Nat.log2 n - 52) * 2 ^ (Nat.log2 n - 52) := by
    have hsplit : 2 ^ Nat.log2 n = 2 ^ 52 * 2 ^ (Nat.log2 n - 52) := by
      rw [← Nat.pow_add]
      congr 1
      omega
    rw [hsplit] at hself ⊢
    exact Nat.mul_le_mul_right _ ((Nat.le_div_iff_mul_le (Nat.two_pow_pos _)).mpr hself)
  have hge := Nat.le_trans hpow hlow
  rw [isSafeInteger, jsNumber, if_neg h, decide_eq_false_iff_not]
  dsimp only
  split
  · exact Nat.not_lt.mpr hge
  · exact Nat.not_lt.mpr (Nat.le_trans hge (Nat.le_add_right _ _))

/-- A message is appended under its own key, or not at all. -/
theorem appendMessage_cases (page : ChatPage) (n : Nat) :
    (appendMessage page n = page ∧ (n < 2 ^ 53 → n ∈ page.seen)) ∨
      (n < 2 ^ 53 ∧ n ∉ page.seen ∧ appendMessage page n =
        { seen := n :: page.seen, cursor := max page.cursor n, list := page.list ++ [n] }) := by
  by_cases hn : n < 2 ^ 53
  · have hsafe : isSafeInteger n = true := decide_eq_true hn
    simp only [appendMessage, jsNumber_safe hn, hsafe, Bool.not_true, Bool.false_or]
    by_cases hseen : n ∈ page.seen
    · exact Or.inl ⟨if_pos (List.contains_iff_mem.mpr hseen), fun _ => hseen⟩
    · exact Or.inr ⟨hn, hseen, if_neg fun hc => hseen (List.contains_iff_mem.mp hc)⟩
  · refine Or.inl ⟨?_, fun h => absurd h hn⟩
    simp only [appendMessage, not_safe_jsNumber hn, Bool.not_false, Bool.true_or, if_true]

/-! ## What the page keeps -/

/-- Above the cursor it started with, the page lists what it has seen, and nothing twice. -/
structure PageInv (start : Nat) (page : ChatPage) : Prop where
  cursor : start ≤ page.cursor
  once : ∀ n, start < n → page.list.count n ≤ 1
  listed : ∀ n ∈ page.list, start < n → n < 2 ^ 53 → n ∈ page.seen
  seen : ∀ n ∈ page.seen, start < n → n ∈ page.list

section Page

variable {start n : Nat} {page : ChatPage}

theorem PageInv.append (h : PageInv start page) (n : Nat) :
    PageInv start (appendMessage page n) := by
  rcases appendMessage_cases page n with ⟨heq, -⟩ | ⟨hsafe, hnew, heq⟩
  · rw [heq]
    exact h
  · rw [heq]
    refine ⟨Nat.le_trans h.cursor (Nat.le_max_left _ _), fun m hm => ?_, fun m hm hlt hs => ?_,
      fun m hm hlt => ?_⟩
    · show (page.list ++ [n]).count m ≤ 1
      rw [List.count_append]
      by_cases hmn : m = n
      · -- what is new was not listed
        subst hmn
        have hnot : m ∉ page.list := fun hin => hnew (h.listed m hin hm hsafe)
        rw [List.count_eq_zero_of_not_mem hnot, Nat.zero_add]
        exact List.count_le_length
      · have hnot : m ∉ [n] := fun hin => hmn (List.mem_singleton.mp hin)
        rw [List.count_eq_zero_of_not_mem hnot]
        exact h.once m hm
    · rcases List.mem_append.mp hm with hm | hm
      · exact List.mem_cons_of_mem _ (h.listed m hm hlt hs)
      · rw [List.mem_singleton.mp hm]
        exact List.mem_cons_self
    · rcases List.mem_cons.mp hm with rfl | hm
      · exact List.mem_append_right _ List.mem_cons_self
      · exact List.mem_append_left _ (h.seen m hm hlt)

/-- Several messages, one after the other. -/
def appendAll (page : ChatPage) (ids : List Nat) : ChatPage := ids.foldl appendMessage page

/-- What is appended stays, what is safe to append is appended, and the cursor stays or is
    one of the keys. -/
structure Appended (start : Nat) (page : ChatPage) (ids : List Nat) (page' : ChatPage) : Prop where
  inv : PageInv start page'
  kept : ∀ n ∈ page.list, n ∈ page'.list
  listed : ∀ n ∈ ids, n < 2 ^ 53 → start < n → n ∈ page'.list
  cursor : page'.cursor = page.cursor ∨ page'.cursor ∈ ids

/-- Appending a list of messages shows all of them, each once. -/
theorem appended_all (h : PageInv start page) (ids : List Nat) :
    Appended start page ids (appendAll page ids) := by
  induction ids generalizing page with
  | nil => exact ⟨h, fun _ hn => hn, fun n hn => (nomatch hn), Or.inl rfl⟩
  | cons a ids ih =>
      have hrest := ih (h.append a)
      have hone : (∀ n ∈ page.list, n ∈ (appendMessage page a).list) ∧
          (a < 2 ^ 53 → start < a → a ∈ (appendMessage page a).list) ∧
          ((appendMessage page a).cursor = page.cursor ∨ (appendMessage page a).cursor = a) := by
        rcases appendMessage_cases page a with ⟨heq, hseen⟩ | ⟨-, -, heq⟩
        · rw [heq]
          exact ⟨fun _ hn => hn, fun hsafe hlt => h.seen a (hseen hsafe) hlt, Or.inl rfl⟩
        · rw [heq]
          refine ⟨fun n hn => List.mem_append_left _ hn,
            fun _ _ => List.mem_append_right _ List.mem_cons_self, ?_⟩
          show max page.cursor a = page.cursor ∨ max page.cursor a = a
          omega
      obtain ⟨hkept, hlisted, hcursor⟩ := hone
      refine ⟨hrest.inv, fun n hn => hrest.kept n (hkept n hn), fun n hn hsafe hlt => ?_, ?_⟩
      · rcases List.mem_cons.mp hn with rfl | hn
        · exact hrest.kept n (hlisted hsafe hlt)
        · exact hrest.listed n hn hsafe hlt
      · rcases hrest.cursor with hc | hc
        · rcases hcursor with hc' | hc'
          · exact Or.inl (hc.trans hc')
          · refine Or.inr ?_
            show (appendAll (appendMessage page a) ids).cursor ∈ a :: ids
            rw [hc, hc']
            exact List.mem_cons_self
        · exact Or.inr (List.mem_cons_of_mem _ hc)

end Page

/-! ## The browser and the server -/

/-- A page of the history on its way to the browser, and what the room was when it was
    produced. -/
structure HistoryAnswer where
  messages : List Nat
  committed : List Nat

/-- The page, the cursors of the requests that are not answered yet, the answers that have
    not arrived yet, and the rooms of the short answers that have been processed. -/
structure Browser where
  page : ChatPage
  requests : List Nat := []
  answers : List HistoryAnswer := []
  synced : List (List Nat) := []

structure ChatSystem (ι : Type) where
  server : Config ι Store Lock Exn Obs Unit
  browser : Browser

/-- What may happen next. -/
inductive ChatEvent where
  /-- A sender or a reader executes a statement. -/
  | server
  /-- A live event about a message arrives. -/
  | message (n : Nat)
  /-- `requestHistory`, when a connection opens or after a degraded acknowledgement. -/
  | request
  /-- `history_after` answers a request. -/
  | answer
  /-- An answer arrives: `data.messages.forEach(appendMessage)`. -/
  | history
  /-- The connection breaks, and everything on its way is lost. -/
  | reconnect

variable {ι : Type} [DecidableEq ι]

/-- One step of the browser in a room, or of the server. -/
inductive ChatStep (room : Nat) : ChatEvent → ChatSystem ι → ChatSystem ι → Prop where
  | server {who : Option ι} {c c' : Config ι Store Lock Exn Obs Unit} (b : Browser) :
      Step (postgres fun _ _ => False) who c c' → ChatStep room .server ⟨c, b⟩ ⟨c', b⟩
  | message {c : Config ι Store Lock Exn Obs Unit} {n : Nat} (b : Browser) :
      n ∈ roomIds room c.db →
      ChatStep room (.message n) ⟨c, b⟩ ⟨c, { b with page := appendMessage b.page n }⟩
  | request (c : Config ι Store Lock Exn Obs Unit) (b : Browser) :
      ChatStep room .request ⟨c, b⟩ ⟨c, { b with requests := b.requests ++ [b.page.cursor] }⟩
  | answer {c : Config ι Store Lock Exn Obs Unit} {b : Browser} {cursor : Nat}
      {rest : List Nat} : b.requests = cursor :: rest →
      ChatStep room .answer ⟨c, b⟩ ⟨c, { b with
        requests := rest
        answers := b.answers ++ [⟨(historyPage room cursor HISTORY_MAX_LIMIT c.db).map
          (·.serverMessageId), roomIds room c.db⟩] }⟩
  | history {c : Config ι Store Lock Exn Obs Unit} {b : Browser} {a : HistoryAnswer}
      {rest : List HistoryAnswer} : b.answers = a :: rest →
      ChatStep room .history ⟨c, b⟩ ⟨c, { b with
        page := appendAll b.page a.messages
        answers := rest
        synced := if a.messages.length < 100 then a.committed :: b.synced else b.synced }⟩
  | reconnect (c : Config ι Store Lock Exn Obs Unit) (b : Browser) :
      ChatStep room .reconnect ⟨c, b⟩ ⟨c, { b with requests := [], answers := [] }⟩

/-- A page that is loaded from the server, and nothing on its way. -/
def ChatSystem.opened (room : Nat) (c : Config ι Store Lock Exn Obs Unit) : ChatSystem ι :=
  ⟨c, { page := loadPage (roomDetailIds room c.db) }⟩

/-- No request goes out while a message between the first cursor and the one that is sent is
    not listed, and keys that arrive are safe integers. -/
def Gapless (room start : Nat) : ChatEvent → ChatSystem ι → Prop
  | .request, σ => ∀ n ∈ roomIds room σ.server.db, start < n → n ≤ σ.browser.page.cursor →
      n ∈ σ.browser.page.list
  | .history, σ => ∀ a ∈ σ.browser.answers.head?, ∀ n ∈ a.messages, n < 2 ^ 53
  | _, _ => True

section Runs

variable {room start : Nat} {s s' : Store} {b : Browser} {c c' : Config ι Store Lock Exn Obs Unit}
  {σ σ' : ChatSystem ι}

/-- The messages of the room above the first cursor and up to the one sent are listed. -/
def Covers (room start cursor : Nat) (s : Store) (page : ChatPage) : Prop :=
  ∀ n ∈ roomIds room s, start < n → n ≤ cursor → n ∈ page.list

/-- The cursor is the first one, or a message of the room. -/
def AtMessage (room start cursor : Nat) (s : Store) : Prop :=
  cursor = start ∨ cursor ∈ roomIds room s

/-- What a pending answer is: a page from a cursor below which all is listed. -/
def Answers (room start : Nat) (a : HistoryAnswer) (s : Store) (page : ChatPage) : Prop :=
  ∃ cursor s0, RoomGrows s0 s ∧ (roomIds room s0).Nodup ∧ a.committed = roomIds room s0 ∧
    a.messages = (idsAfter room cursor s0).take 100 ∧ Covers room start cursor s0 page

/-- What a gapless run keeps. -/
structure BrowserInv (room start : Nat) (s : Store) (b : Browser) : Prop where
  nodup : (roomIds room s).Nodup
  page : PageInv start b.page
  cursor : AtMessage room start b.page.cursor s
  requests : ∀ cursor ∈ b.requests, AtMessage room start cursor s ∧
    Covers room start cursor s b.page
  answers : ∀ a ∈ b.answers, Answers room start a s b.page
  synced : ∀ committed ∈ b.synced, ∀ n ∈ committed, start < n → n ∈ b.page.list

/-- The cursor stays at a message as the room grows. -/
theorem AtMessage.grows {cursor : Nat} (h : AtMessage room start cursor s) (hg : RoomGrows s s') :
    AtMessage room start cursor s' := by
  rcases h with h | h
  · exact Or.inl h
  · exact Or.inr (hg.subset h)

/-- What is committed later is above every cursor that is a message. -/
theorem Covers.grows {cursor : Nat} {page : ChatPage} (h : Covers room start cursor s page)
    (hat : AtMessage room start cursor s) (hg : RoomGrows s s') :
    Covers room start cursor s' page := by
  intro n hn hlt hle
  by_cases hold : n ∈ roomIds room s
  · exact h n hold hlt hle
  · have hlater := (hg.later hn hold).2
    rcases hat with hc | hc
    · omega
    · have := hlater cursor hc
      omega

/-- **SERVER**: messages are added to rooms. -/
theorem BrowserInv.grows (h : BrowserInv room start s b) (hg : RoomGrows s s') :
    BrowserInv room start s' b where
  nodup := hg.nodup h.nodup
  page := h.page
  cursor := h.cursor.grows hg
  requests cursor hc := by
    obtain ⟨hat, hcovers⟩ := h.requests cursor hc
    exact ⟨hat.grows hg, hcovers.grows hat hg⟩
  answers a ha := by
    obtain ⟨cursor, s0, hgrows, hrest⟩ := h.answers a ha
    exact ⟨cursor, s0, roomGrows_composes.trans _ _ _ hgrows hg, hrest⟩
  synced := h.synced

/-- **APPENDING** messages of the room. -/
theorem BrowserInv.append (h : BrowserInv room start s b) {ids : List Nat}
    (hids : ∀ n ∈ ids, n ∈ roomIds room s) :
    BrowserInv room start s { b with page := appendAll b.page ids } := by
  have happended := appended_all h.page ids
  have hcovers : ∀ {cursor : Nat} {s : Store}, Covers room start cursor s b.page →
      Covers room start cursor s (appendAll b.page ids) :=
    fun hc n hn hlt hle => happended.kept n (hc n hn hlt hle)
  refine ⟨h.nodup, happended.inv, ?_, fun cursor hc => ?_, fun a ha => ?_,
    fun committed hc n hn hlt => happended.kept n (h.synced committed hc n hn hlt)⟩
  · show AtMessage room start (appendAll b.page ids).cursor s
    rcases happended.cursor with hc | hc
    · rw [hc]
      exact h.cursor
    · exact Or.inr (hids _ hc)
  · obtain ⟨hat, hcov⟩ := h.requests cursor hc
    exact ⟨hat, hcovers hcov⟩
  · obtain ⟨cursor, s0, hgrows, hnodup, hcommitted, hmessages, hcov⟩ := h.answers a ha
    exact ⟨cursor, s0, hgrows, hnodup, hcommitted, hmessages, hcovers hcov⟩

/-- **A SHORT ANSWER** is all that was above its cursor, and so the room is listed. -/
theorem Answers.listed {a : HistoryAnswer} {page page' : ChatPage}
    (h : Answers room start a s page) (happended : Appended start page a.messages page')
    (hsafe : ∀ n ∈ a.messages, n < 2 ^ 53) (hshort : a.messages.length < 100) :
    ∀ n ∈ a.committed, start < n → n ∈ page'.list := by
  obtain ⟨cursor, s0, -, -, hcommitted, hmessages, hcovers⟩ := h
  intro n hn hlt
  rw [hcommitted] at hn
  by_cases hle : n ≤ cursor
  · exact happended.kept n (hcovers n hn hlt hle)
  · have hall : (idsAfter room cursor s0).take 100 = idsAfter room cursor s0 := by
      rw [hmessages, List.length_take] at hshort
      exact List.take_of_length_le (by omega)
    have hin : n ∈ a.messages := by
      rw [hmessages, hall]
      exact mem_idsAfter.mpr ⟨hn, Nat.lt_of_not_le hle⟩
    exact happended.listed n hin (hsafe n hin) hlt

/-- An answer holds messages of the room only. -/
theorem Answers.messages {a : HistoryAnswer} {page : ChatPage}
    (h : Answers room start a s page) : ∀ n ∈ a.messages, n ∈ roomIds room s := by
  obtain ⟨cursor, s0, hgrows, -, -, hmessages, -⟩ := h
  intro n hn
  rw [hmessages] at hn
  exact hgrows.subset (mem_idsAfter.mp (List.mem_of_mem_take hn)).1

/-- **STEP**: a gapless step of the browser keeps the invariant. -/
theorem BrowserInv.step (h : BrowserInv room start σ.server.db σ.browser) {e : ChatEvent}
    (hs : ChatStep room e σ σ') (hgapless : Gapless room start e σ)
    (hgrows : RoomGrows σ.server.db σ'.server.db) :
    BrowserInv room start σ'.server.db σ'.browser := by
  cases hs with
  | server b hs => exact h.grows hgrows
  | @message c n b hn => exact h.append fun m (hm : m ∈ [n]) => List.mem_singleton.mp hm ▸ hn
  | request c b =>
      refine ⟨h.nodup, h.page, h.cursor, fun cursor hc => ?_, h.answers, h.synced⟩
      rcases List.mem_append.mp hc with hc | hc
      · exact h.requests cursor hc
      · rw [List.mem_singleton.mp hc]
        exact ⟨h.cursor, hgapless⟩
  | @answer c b cursor rest hrequests =>
      have hreq : ∀ x ∈ cursor :: rest, AtMessage room start x c.db ∧
          Covers room start x c.db b.page := fun x hx => h.requests x (by rw [hrequests]; exact hx)
      refine ⟨h.nodup, h.page, h.cursor, fun x hx => hreq x (List.mem_cons_of_mem _ hx),
        fun a ha => ?_, h.synced⟩
      rcases List.mem_append.mp ha with ha | ha
      · exact h.answers a ha
      · rw [List.mem_singleton.mp ha]
        exact ⟨cursor, c.db, roomGrows_composes.refl _, h.nodup, rfl, historyPage_ids _ _ _ _,
          (hreq cursor List.mem_cons_self).2⟩
  | @history c b a rest hanswers =>
      have ha : Answers room start a c.db b.page :=
        h.answers a (by rw [hanswers]; exact List.mem_cons_self)
      have hsafe : ∀ n ∈ a.messages, n < 2 ^ 53 := by
        refine hgapless a ?_
        rw [hanswers]
        rfl
      have happended := appended_all h.page a.messages
      have hnew := h.append ha.messages
      refine ⟨hnew.nodup, hnew.page, hnew.cursor, hnew.requests,
        fun x hx => hnew.answers x (by rw [hanswers]; exact List.mem_cons_of_mem _ hx), ?_⟩
      intro committed hc
      dsimp only at hc
      split at hc
      · next hshort =>
          rcases List.mem_cons.mp hc with rfl | hc
          · exact ha.listed happended hsafe hshort
          · exact hnew.synced committed hc
      · exact hnew.synced committed hc
  | reconnect c b =>
      exact ⟨h.nodup, h.page, h.cursor, fun _ hc => (nomatch hc), fun _ ha => (nomatch ha),
        h.synced⟩

variable {sha256 : String → String} {clients : ι → ChatClient} {now : Time}

end Runs

end Market
