import EvidentLedger.Json
import EvidentLedger.Ledger.ReadPath
import EvidentLedger.Lib.Base64
import EvidentLedger.Lib.Decimal
import EvidentLedger.Lib.Paging
import Mathlib.Data.List.Lex
import Mathlib.Data.Prod.Lex

/-!
# The events of an identity key

`list_key_events` (`src/service/identity_dashboard.rs:97-208`) with its cursor, behind
`GET /v1/identity/keys/{key_id}/events` and the page of the dashboard, both of which take the limit from
`clamp_events_limit`.

* PostgreSQL compares uuids byte by byte (`byteOrder`), and `LIMIT` must not be negative.
* A limit that is not positive panics: the slice of a negative length, the last row of an empty page.
* `belowCursor_eq`, `listKeyEvents_eq`: a page is one of `Lib.Paging`, with the texts of its cursors.
* `decodeCursor_encodeCursor`: a cursor is read back.
* **`pages_visit_once`**: following the cursors ends and shows every event of the key once.
-/

namespace EvidentLedger.IdentityDashboard

open Lib.Text Lib.Decimal Lib.Paging Ledger

/-! ## Rows and errors -/

/-- `IdentityDashboardError`, and a panic. -/
inductive ListError where
  | keyNotFound
  | invalidCursor
  | database
  | verification
  | panicked
  deriving Repr, DecidableEq

/-- `IdentityKeyEventRow`. -/
structure IdentityKeyEventRow where
  eventId : Uuid
  chainId : Uuid
  sequence : Int64
  signedAt : Int
  identitySignatureValid : Bool
  deriving DecidableEq

/-- `IdentityKeyEventsPage`. -/
structure IdentityKeyEventsPage where
  keyId : Uuid
  keyStatus : String
  events : List IdentityKeyEventRow
  nextCursor : Option String
  deriving DecidableEq

/-- `key_status`. -/
def keyStatus (revokedAt : Option Int) : String := if revokedAt.isSome then "revoked" else "active"

/-- `clamp_events_limit`. -/
def clampEventsLimit (limit : Option UInt32) : Int64 :=
  match limit with
  | none => 20
  | some value => if value = 0 then 20 else if value > 100 then 100 else Int64.ofNat value.toNat

/-- The limits that the two handlers ask for. -/
theorem clampEventsLimit_bounds (limit : Option UInt32) :
    1 ≤ clampEventsLimit limit ∧ clampEventsLimit limit ≤ 100 := by
  cases limit with
  | none => decide
  | some value =>
    unfold clampEventsLimit
    by_cases hzero : value = 0
    · simp [hzero]
    · by_cases hbig : value > 100
      · simp [hzero, hbig]
      · have hpos : value.toNat ≠ 0 := fun h => hzero (UInt32.toNat_inj.mp h)
        have hle : value.toNat ≤ 100 := by
          have := UInt32.lt_iff_toNat_lt.not.mp hbig
          exact Nat.le_of_not_lt this
        have hto : (Int64.ofNat value.toNat).toInt = value.toNat := Int64.toInt_ofNat_of_lt (by omega)
        simp only [if_neg hzero, if_neg hbig, Int64.le_iff_toInt_le, hto]
        constructor
        · show (1 : Int) ≤ _
          omega
        · show _ ≤ (100 : Int)
          omega

/-- How `uuid` values are compared. -/
def byteOrder (id : Uuid) : List Nat := id.bytes.1.map UInt8.toNat

/-- What `ORDER BY sequence DESC, event_id DESC` compares. -/
def position (sequence : Int64) (eventId : Uuid) : Int ×ₗ List Nat :=
  toLex (sequence.toInt, byteOrder eventId)

/-- The position of a row. -/
def rowPosition (e : EventRecord) : Int ×ₗ List Nat := position e.sequence e.eventId

/-! ## Cursors -/

/-- `format!("\x7bsequence\x7d:\x7bevent_id\x7d")`. -/
def cursorPayload (sequence : Int64) (eventId : Uuid) : String :=
  String.ofList (intChars sequence.toInt) ++ ":" ++ eventId.toString

/-- `encode_cursor`. -/
def encodeCursor (sequence : Int64) (eventId : Uuid) : String :=
  String.ofList (Lib.Base64.encodeChars (asBytes (cursorPayload sequence eventId)))

/-- `str::split_once`. -/
def splitOnce (c : Char) (text : String) : Option (List Char × List Char) :=
  match text.toList.span (· != c) with
  | (_, []) => none
  | (first, _ :: rest) => some (first, rest)

/-- `decode_cursor`. -/
def decodeCursor (cursor : String) : Option (Option Int64 × Option Uuid) := do
  let bytes ← Lib.Base64.decodeChars (trim cursor).toList
  let payload ← fromUtf8 bytes
  let (sequence, eventId) ← splitOnce ':' payload
  let sequence ← parseI64 sequence
  let eventId ← Uuid.parseStr (String.ofList eventId)
  pure (some sequence, some eventId)

theorem splitOnce_payload (sequence : Int64) (eventId : Uuid) :
    splitOnce ':' (cursorPayload sequence eventId) =
      some (intChars sequence.toInt, eventId.toString.toList) := by
  have hplain : ∀ c ∈ intChars sequence.toInt, (c != ':') = true := by
    intro c hc
    rcases mem_intChars hc with rfl | hdigit
    · decide
    · rw [bne_iff_ne]
      rintro rfl
      exact absurd hdigit (by decide)
  have hchars : (cursorPayload sequence eventId).toList =
      intChars sequence.toInt ++ ':' :: eventId.toString.toList := by
    simp [cursorPayload, String.toList_append]
  unfold splitOnce
  rw [hchars, List.span_eq_takeWhile_dropWhile, List.takeWhile_append_of_pos hplain,
    List.dropWhile_append_of_pos hplain]
  simp

theorem trim_encodeCursor (sequence : Int64) (eventId : Uuid) :
    trim (encodeCursor sequence eventId) = encodeCursor sequence eventId := by
  have hplain : ('=' :: Lib.Base64.alphabet).all (fun c => !isBlank c) = true := by decide
  refine trim_of_not_blank fun c hc => ?_
  rw [encodeCursor, String.toList_ofList] at hc
  simpa using List.all_eq_true.mp hplain c (Lib.Base64.mem_encodeChars hc)

/-- **A cursor is read back.** -/
theorem decodeCursor_encodeCursor (sequence : Int64) (eventId : Uuid) :
    decodeCursor (encodeCursor sequence eventId) = some (some sequence, some eventId) := by
  unfold decodeCursor
  rw [trim_encodeCursor, encodeCursor, String.toList_ofList, Lib.Base64.decodeChars_encodeChars]
  simp only [Option.bind_eq_bind, Option.bind_some, fromUtf8_asBytes, splitOnce_payload,
    parseI64_intChars, String.ofList_toList, Uuid.parseStr_toString, Option.pure_def]

/-! ## The pages -/

/-- `$2::bigint IS NULL OR sequence < $2 OR (sequence = $2 AND event_id < $3)`. -/
def belowCursor (cursorSequence : Option Int64) (cursorEventId : Option Uuid) (e : EventRecord) : Bool :=
  match cursorSequence with
  | none => true
  | some s => decide (e.sequence < s) ||
      (e.sequence == s && cursorEventId.any fun id => decide (byteOrder e.eventId < byteOrder id))

/-- The events that a key signed. -/
def keyEvents (db : Db) (keyId : Uuid) : List EventRecord :=
  db.events.filter fun e => e.identityKeyId == some keyId

/-- The `SELECT` of a page. -/
def selectEvents (db : Db) (keyId : Uuid) (cursorSequence : Option Int64) (cursorEventId : Option Uuid)
    (fetchLimit : Int64) : Except ListError (List EventRecord) :=
  if fetchLimit < 0 then .error .database
  else .ok ((sortDesc rowPosition
    ((keyEvents db keyId).filter (belowCursor cursorSequence cursorEventId))).take
      fetchLimit.toInt.toNat)

variable (state : ReadState)

/-- The row that is shown for an event. -/
def eventRow (db : Db) (e : EventRecord) : Except ListError IdentityKeyEventRow :=
  match verifyIdentity state db e
    (buildLeaf state.sha e.sequence e.eventId e.parentEventId e.fileHash) with
  | none => .error .verification
  | some verification => .ok ⟨e.eventId, e.chainId, e.sequence, e.createdAt, verification.valid⟩

/-- The rows of the page, of those that were fetched. -/
def pageRows (limit : Int64) (rows : List EventRecord) : Except ListError (List EventRecord) :=
  if limit.toInt < rows.length then
    if limit < 0 then .error .panicked else .ok (rows.take limit.toInt.toNat)
  else .ok rows

/-- `next_cursor`. -/
def nextCursor (limit : Int64) (rows page : List EventRecord) : Except ListError (Option String) :=
  if limit.toInt < rows.length then
    match page.getLast? with
    | none => .error .panicked
    | some last => .ok (some (encodeCursor last.sequence last.eventId))
  else .ok none

/-- The position that the request is about. -/
def requestedPosition (cursor : Option String) : Except ListError (Option Int64 × Option Uuid) :=
  match cursor with
  | none => .ok (none, none)
  | some value => (decodeCursor value).elim (.error .invalidCursor) .ok

/-- `list_key_events`. -/
def listKeyEvents (db : Db) (accountId keyId : Uuid) (limit : Int64) (cursor : Option String) :
    Except ListError IdentityKeyEventsPage := do
  let key ← (db.identityKeys.find? fun k => k.id == keyId && k.accountId == accountId).elim
    (.error .keyNotFound) .ok
  let (cursorSequence, cursorEventId) ← requestedPosition cursor
  let fetchLimit := limit + 1
  let rows ← selectEvents db keyId cursorSequence cursorEventId fetchLimit
  let page ← pageRows limit rows
  let events ← page.mapM (eventRow state db)
  let next ← nextCursor limit rows page
  pure ⟨key.id, keyStatus key.revokedAt, events, next⟩

/-- The pages from a cursor on, each with the cursor the one before gave, if there are less than `fuel`. -/
def followPages (db : Db) (accountId keyId : Uuid) (limit : Int64) :
    Nat → Option String → Option (List IdentityKeyEventsPage)
  | 0, _ => none
  | fuel + 1, cursor =>
    match listKeyEvents state db accountId keyId limit cursor with
    | .error _ => none
    | .ok page =>
      match page.nextCursor with
      | none => some [page]
      | some next => (followPages db accountId keyId limit fuel (some next)).map (page :: ·)

/-! ## A page -/

theorem byteOrder_inj {u v : Uuid} (h : byteOrder u = byteOrder v) : u = v := by
  have hbytes : u.bytes.1 = v.bytes.1 :=
    List.map_injective_iff.mpr (fun a b hab => UInt8.toNat_inj.mp hab) h
  cases u
  cases v
  exact congrArg Uuid.mk (Subtype.ext hbytes)

/-- The condition on the cursor is the order of the rows. -/
theorem belowCursor_eq (cursor : Option EventRecord) :
    belowCursor (cursor.map (·.sequence)) (cursor.map (·.eventId)) = below rowPosition cursor := by
  funext e
  cases cursor with
  | none => rfl
  | some c =>
    have heq : (e.sequence == c.sequence) = decide (e.sequence.toInt = c.sequence.toInt) := by
      rw [Bool.eq_iff_iff, beq_iff_eq, decide_eq_true_iff, Int64.toInt_inj]
    simp only [belowCursor, below, Option.map_some, Option.any_some, rowPosition, position,
      Prod.Lex.toLex_lt_toLex, Int64.lt_iff_toInt_lt, heq, Bool.decide_or, Bool.decide_and]

/-- The text of a cursor. -/
def cursorText (cursor : Option EventRecord) : Option String :=
  cursor.map fun c => encodeCursor c.sequence c.eventId

theorem requestedPosition_cursorText (cursor : Option EventRecord) :
    requestedPosition (cursorText cursor) =
      .ok (cursor.map (·.sequence), cursor.map (·.eventId)) := by
  cases cursor with
  | none => rfl
  | some c =>
    simp only [requestedPosition, cursorText, Option.map_some, decodeCursor_encodeCursor,
      Option.elim_some]

/-- Every event has a row: the hash of an event is one. -/
def shownRow (db : Db) (e : EventRecord) : IdentityKeyEventRow where
  eventId := e.eventId
  chainId := e.chainId
  sequence := e.sequence
  signedAt := e.createdAt
  identitySignatureValid := ((verifyIdentity state db e
    (buildLeaf state.sha e.sequence e.eventId e.parentEventId e.fileHash)).map (·.valid)).getD false

theorem eventRow_eq (db : Db) (e : EventRecord) : eventRow state db e = .ok (shownRow state db e) := by
  obtain ⟨verification, hv⟩ := exists_verifyIdentity state db e
  simp only [eventRow, shownRow, hv, Option.map_some, Option.getD_some]

theorem mapM_eventRow (db : Db) (l : List EventRecord) :
    l.mapM (eventRow state db) = .ok (l.map (shownRow state db)) := by
  have hrow : eventRow state db = fun e => pure (shownRow state db e) :=
    funext fun e => eventRow_eq state db e
  rw [hrow, List.mapM_pure]
  rfl

variable {state} {limit : Int64}

/-- One row more than the limit. -/
theorem toInt_fetchLimit (h₁ : 1 ≤ limit) (h₂ : limit ≤ 100) :
    (limit + 1).toInt = limit.toInt + 1 ∧ 1 ≤ limit.toInt := by
  have h₁ := Int64.le_iff_toInt_le.mp h₁
  have h₂ := Int64.le_iff_toInt_le.mp h₂
  have hone : (1 : Int64).toInt = 1 := rfl
  have hhundred : (100 : Int64).toInt = 100 := rfl
  rw [Int64.toInt_add, hone, Int.bmod_eq_of_le (by omega) (by omega)]
  omega

/-- **A page** is one of the key's events. -/
theorem listKeyEvents_eq {db : Db} {accountId keyId : Uuid} {key : IdentityKeyRow}
    (hkey : (db.identityKeys.find? fun k => k.id == keyId && k.accountId == accountId) = some key)
    (h₁ : 1 ≤ limit) (h₂ : limit ≤ 100) (cursor : Option EventRecord) :
    listKeyEvents state db accountId keyId limit (cursorText cursor) =
      .ok ⟨key.id, keyStatus key.revokedAt,
        (page rowPosition limit.toInt.toNat (keyEvents db keyId) cursor).1.map (shownRow state db),
        cursorText (page rowPosition limit.toInt.toNat (keyEvents db keyId) cursor).2⟩ := by
  obtain ⟨hfetch, hpos⟩ := toInt_fetchLimit h₁ h₂
  have hselect : selectEvents db keyId (cursor.map (·.sequence)) (cursor.map (·.eventId)) (limit + 1) =
      .ok ((sortDesc rowPosition ((keyEvents db keyId).filter (below rowPosition cursor))).take
        (limit.toInt.toNat + 1)) := by
    unfold selectEvents
    rw [if_neg (by rw [Int64.lt_iff_toInt_lt]; show ¬ _ < (0 : Int); omega), belowCursor_eq, hfetch]
    congr 3
    omega
  unfold listKeyEvents page
  rw [hkey, requestedPosition_cursorText]
  simp only [Option.elim_some, bind, Except.bind, hselect]
  generalize (sortDesc rowPosition ((keyEvents db keyId).filter (below rowPosition cursor))).take
    (limit.toInt.toNat + 1) = rows
  unfold pageRows nextCursor
  by_cases hmore : limit.toInt.toNat < rows.length
  · have hmore' : limit.toInt < rows.length := by omega
    have hneg : ¬ limit < 0 := by
      rw [Int64.lt_iff_toInt_lt]
      show ¬ _ < (0 : Int)
      omega
    obtain ⟨last, hlast⟩ : ∃ last, (rows.take limit.toInt.toNat).getLast? = some last := by
      refine Option.isSome_iff_exists.mp (List.getLast?_isSome.mpr ?_)
      exact List.ne_nil_of_length_pos (by rw [List.length_take]; omega)
    simp only [if_pos hmore, if_pos hmore', if_neg hneg, mapM_eventRow, hlast]
    rfl
  · have hmore' : ¬ limit.toInt < rows.length := by omega
    simp only [if_neg hmore, if_neg hmore', mapM_eventRow]
    rfl

/-! ## Following the cursors -/

/-- Following the texts of the cursors is following the cursors. -/
theorem followPages_eq (state : ReadState) {db : Db} {accountId keyId : Uuid} {key : IdentityKeyRow}
    (hkey : (db.identityKeys.find? fun k => k.id == keyId && k.accountId == accountId) = some key)
    (h₁ : 1 ≤ limit) (h₂ : limit ≤ 100) (fuel : Nat) (cursor : Option EventRecord) :
    (followPages state db accountId keyId limit fuel (cursorText cursor)).map
        (·.map IdentityKeyEventsPage.events) =
      (visit rowPosition limit.toInt.toNat (keyEvents db keyId) fuel cursor).map
        (·.map fun found => found.map (shownRow state db)) := by
  induction fuel generalizing cursor with
  | zero => rfl
  | succ fuel ih =>
    unfold followPages visit
    rw [listKeyEvents_eq hkey h₁ h₂]
    cases hpage : page rowPosition limit.toInt.toNat (keyEvents db keyId) cursor with
    | mk found next =>
      cases next with
      | none => rfl
      | some c =>
        have hc := ih (some c)
        simp only [cursorText, Option.map_some] at hc ⊢
        rw [Option.map_map, Option.map_map]
        have hleft : (List.map IdentityKeyEventsPage.events ∘
            fun pages => ⟨key.id, keyStatus key.revokedAt, found.map (shownRow state db),
              some (encodeCursor c.sequence c.eventId)⟩ :: pages) =
            (found.map (shownRow state db) :: ·) ∘ List.map IdentityKeyEventsPage.events := rfl
        have hright : ((List.map fun found => found.map (shownRow state db)) ∘ (found :: ·)) =
            (found.map (shownRow state db) :: ·) ∘ List.map fun found => found.map (shownRow state db) :=
          rfl
        rw [hleft, hright, ← Option.map_map, ← Option.map_map, hc]

theorem nodup_rowPosition {db : Db} (hids : (db.events.map (·.eventId)).Nodup) (keyId : Uuid) :
    ((keyEvents db keyId).map rowPosition).Nodup := by
  have hkeys : ((keyEvents db keyId).map (·.eventId)).Nodup :=
    hids.sublist (List.filter_sublist.map _)
  rw [List.nodup_map_iff_inj_on (List.Nodup.of_map _ hkeys)]
  intro a ha b hb hab
  have hbytes : byteOrder a.eventId = byteOrder b.eventId :=
    congrArg (fun p : Int ×ₗ List Nat => (ofLex p).2) hab
  exact List.inj_on_of_nodup_map hkeys ha hb (byteOrder_inj hbytes)

/-- **Every event is shown once**, the latest first, and a cursor is read back. -/
theorem pages_visit_once (state : ReadState) {db : Db} (hids : (db.events.map (·.eventId)).Nodup)
    {accountId keyId : Uuid} {key : IdentityKeyRow} (hkey : key ∈ db.identityKeys)
    (hid : key.id = keyId) (haccount : key.accountId = accountId) {limit : Int64} (h₁ : 1 ≤ limit)
    (h₂ : limit ≤ 100) :
    (∃ pages, followPages state db accountId keyId limit ((keyEvents db keyId).length + 1) none =
        some pages ∧
      (pages.flatMap (·.events)).Perm ((keyEvents db keyId).map (shownRow state db)) ∧
      (pages.flatMap (·.events)).Pairwise fun a b =>
        position b.sequence b.eventId < position a.sequence a.eventId) ∧
    ∀ sequence eventId,
      decodeCursor (encodeCursor sequence eventId) = some (some sequence, some eventId) := by
  refine ⟨?_, decodeCursor_encodeCursor⟩
  obtain ⟨key', hkey'⟩ : ∃ key', (db.identityKeys.find? fun k =>
      k.id == keyId && k.accountId == accountId) = some key' := by
    refine Option.isSome_iff_exists.mp (List.find?_isSome.mpr ⟨key, hkey, ?_⟩)
    rw [hid, haccount, beq_self_eq_true, beq_self_eq_true, Bool.and_self]
  have hpos := (toInt_fetchLimit h₁ h₂).2
  have hnodup := nodup_rowPosition hids keyId
  obtain ⟨found, hvisit, hfound⟩ := visit_eq (show 0 < limit.toInt.toNat by omega) hnodup
    (Nat.lt_succ_self (keyEvents db keyId).length)
  have hfollow := followPages_eq state hkey' h₁ h₂ ((keyEvents db keyId).length + 1) none
  rw [hvisit, Option.map_some, Option.map_eq_some_iff] at hfollow
  obtain ⟨pages, hpages, hevents⟩ := hfollow
  have hall : pages.flatMap (·.events) =
      (sortDesc rowPosition (keyEvents db keyId)).map (shownRow state db) := by
    rw [List.flatMap_def, hevents, ← hfound, List.map_flatten]
  refine ⟨pages, hpages, ?_, ?_⟩
  · rw [hall]
    exact perm_sortDesc.map _
  · rw [hall, List.pairwise_map]
    exact strict_sortDesc hnodup

/-- Three events of one key on two chains, two of them with one sequence. -/
def sampleDb : Db :=
  let signed := fun (id chain : UInt8) (sequence : Int64) => EventRecord.mk (.small id) (.small chain)
    .nil "" "" "" 0 sequence (some (.small 1)) none none
  { Db.empty (fun _ => none) [⟨.small 1, .small 2, "", "", none, none⟩] with
    events := [signed 10 20 1, signed 11 20 2, signed 12 21 1] }

/-- A server without signatures. -/
def sampleReader : ReadState :=
  ⟨⟨sampleSha, sampleEd [], ⟨⟨List.replicate 32 2, rfl⟩⟩⟩, fun _ _ => ⟨.verified, none⟩⟩

/-- Pages of one row. -/
theorem pages_visit_once_sample :
    ∃ pages, followPages sampleReader sampleDb (.small 2) (.small 1) 1 4 none = some pages ∧
      (pages.flatMap (·.events)).Perm (sampleDb.events.map (shownRow sampleReader sampleDb)) := by
  have hids : (sampleDb.events.map (·.eventId)).Nodup := by decide
  obtain ⟨pages, hpages, hperm, -⟩ := (pages_visit_once sampleReader hids List.mem_cons_self rfl rfl
    (show (1 : Int64) ≤ 1 by decide) (by decide)).1
  exact ⟨pages, hpages, hperm⟩

end EvidentLedger.IdentityDashboard
