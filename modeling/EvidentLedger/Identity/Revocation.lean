import EvidentLedger.Identity.Commit
import EvidentLedger.IdentityKeys.Registration
import EvidentLedger.Lib.Service

/-!
# Revocation of identity keys

Any number of registrations, revocations and checks of signatures, whose statements interleave.

* `Told` is what is so of the history when a request has been answered: its own commit is there, or for a
  signature that is accepted a moment at which its key was live (`Accepts`). `serves_told`.
* `Dead` is a key that has been revoked. `triple_refuses`: a request about it (`About`) that begins now is
  told what `Refuses` says.

## Results

* **`revocation_audited`**: in every state reached every key has the trail that its row tells, and who is
  told that a key is revoked has revoked it, as its owner and as the only one.
* **`revoked_for_good`**: after that the row stays, and every request that begins later and is about the
  key or its fingerprint is refused.
* **`accepted_key_live`**: a signature is accepted if it verifies under a key of the account that was not
  revoked at some moment since the request began.
-/

namespace EvidentLedger.Identity

open Lib.Interleave Lib.Text Lib.Transaction
open IdentityKeys (IdentityKey IdentityKeyError)
open Ledger (AppState IdentityKeyRow IdentitySigningError checkIdentityKey)

/-- The tables with their locks and history, and the requests under way. -/
abbrev IdentityConfig := Config (Call.Answer (S := schema)) (Shared schema) (Local schema) Reply

/-- Any requests over some tables; none has begun. -/
def start (state : AppState) (db₀ : Tables) (requests : Nat → Request) : IdentityConfig :=
  startOn (S := schema) db₀ fun p => (requests p).run state

/-! ## What is known between the statements -/

/-- The tables are what the commits have left. -/
abbrev Kept (db₀ : Tables) : Tables → History schema → Prop :=
  Logged (S := schema) (fun h _ log => Commits (tablesAfter (S := schema) db₀ h) log) db₀

/-- A key that is revoked already. -/
def Dead (row : IdentityKey) (g : Shared schema) : Prop := row ∈ g.db.keys

/-- What `revokeInTx` has of the key it has read. -/
def Found (id : Uuid) : Option IdentityKey → Tables → Prop
  | some row, db => db.key? id = some row
  | none, _ => True

/-- And its lock. -/
def lockOf (id : Uuid) : Option IdentityKey → List Key
  | some _ => [.key id]
  | none => []

section Facts

variable {db₀ db db' : Tables} {h : History schema} {p : Nat} {row : IdentityKey} {id : Uuid}
  {at_ : Int}

/-- The tables of a run are well formed where those of the start are. -/
theorem identityOk_of_kept (h₀ : IdentityOk db₀) (hk : Kept db₀ db h) : IdentityOk db := by
  rw [hk.replayed]
  refine hk.induction (motive := fun h => IdentityOk (tablesAfter (S := schema) db₀ h)) h₀
    fun h' q log _ hc hi => ?_
  rw [tablesAfter_concat]
  exact ok_commits hi hc

/-- The tables of a later moment. -/
theorem later_of_kept (h₀ : IdentityOk db₀) {h' : History schema} (hk : Kept db₀ db h)
    (hp : h' <+: h) : Later (tablesAfter (S := schema) db₀ h') db :=
  hk.relates (R := Later) Later.refl (fun hab hbc => Later.trans hab hbc)
    (fun _ _ _ hk' hc => later_commits (identityOk_of_kept h₀ hk') hc) hp

/-- A revoked key stays revoked. -/
theorem steady_dead (h₀ : IdentityOk db₀) (hr : row.revokedAt = some at_) :
    Steady (S := schema) (Kept db₀) p (Dead row) := by
  intro g g' hrow hk hrely hk'
  have hlater := later_of_kept h₀ hk' hrely.history
  rw [← hk.replayed] at hlater
  exact hlater.revoked hrow hr

/-- What was found under the lock stays true while it is held. -/
theorem framed_found (found : Option IdentityKey) :
    Framed (S := schema) (lockOf id found) (Found id found) := by
  intro db db' hs hfound
  cases found with
  | none => trivial
  | some row =>
    have hslice : db'.keys.filter (·.id == id) = db.keys.filter (·.id == id) :=
      hs (.key id) List.mem_cons_self
    simp only [Found, Tables.key?] at hfound ⊢
    rw [← List.head?_filter] at hfound ⊢
    rwa [hslice]

end Facts

/-! ## What a request is told -/

/-- A signature is accepted by a key that was live at a moment since `since`. -/
def Accepts (state : AppState) (db₀ : Tables) (since : History schema) (accountId keyId : Uuid)
    (signatureHex hashHex : String) (fields : Uuid × String × String) (h : History schema) : Prop :=
  ∃ h', (since <+: h' ∧ h' <+: h) ∧ ∃ row ∈ (tablesAfter (S := schema) db₀ h').keys, row.id = keyId ∧
    row.accountId = accountId ∧ row.revokedAt = none ∧ checkIdentityKey state ⟨row.id, row.accountId,
      row.publicKey, row.fingerprint, some row.verifiedAt, none⟩ signatureHex hashHex = .ok fields

/-- An accepted signature was accepted for good. -/
theorem accepts_upward {state : AppState} {db₀ : Tables} {since : History schema}
    {accountId keyId : Uuid} {signatureHex hashHex : String} {fields : Uuid × String × String} :
    Upward (S := schema) (Accepts state db₀ since accountId keyId signatureHex hashHex fields) := by
  rintro h h' hp ⟨h₀, ⟨hsince, hp₀⟩, hrow⟩
  exact ⟨h₀, ⟨hsince, hp₀.trans hp⟩, hrow⟩

/-- What is so of the history when a request has been answered. -/
def Told (state : AppState) (db₀ : Tables) (p : Nat) : Request → Reply → History schema → Prop
  | .create accountId publicKey fingerprint label, .created r, h => ∀ row, r = .ok row →
    (row.accountId = accountId ∧ row.publicKey = publicKey ∧ row.fingerprint = fingerprint ∧
      row.label = label) ∧ ∃ h', h' ++ [(p, [Write.insertKey row])] <+: h
  | .revoke accountId keyId, .revoked r, h => ∀ resp, r = .ok resp →
    ∃ (h' : History schema) (row : IdentityKey) (eventId : Uuid),
      (h' ++ [(p, revocation row resp.revokedAt eventId)] <+: h ∧
        row ∈ (tablesAfter (S := schema) db₀ h').keys) ∧
      row.id = keyId ∧ row.accountId = accountId ∧ resp = ⟨row.id, "revoked", resp.revokedAt⟩
  | .validate accountId keyId signatureHex hashHex, .signed r, h => ∀ fields, r = .ok fields →
    Accepts state db₀ [] accountId keyId signatureHex hashHex fields h
  | _, _, _ => False

/-- What a reply says of the history stays true. -/
theorem told_upward {state : AppState} {db₀ : Tables} {p : Nat} (request : Request) (reply : Reply) :
    Upward (S := schema) (Told state db₀ p request reply) := by
  intro h h' hp htold
  cases request with
  | create =>
    cases reply with
    | created r =>
      intro row hr
      obtain ⟨hfields, h₀, hp₀⟩ := htold row hr
      exact ⟨hfields, h₀, hp₀.trans hp⟩
    | revoked | signed => exact htold
  | revoke =>
    cases reply with
    | revoked r =>
      intro resp hr
      obtain ⟨h₀, row, eventId, ⟨hp₀, hrow⟩, hrest⟩ := htold resp hr
      exact ⟨h₀, row, eventId, ⟨hp₀.trans hp, hrow⟩, hrest⟩
    | created | signed => exact htold
  | validate =>
    cases reply with
    | signed r =>
      exact fun fields hr => accepts_upward h h' hp (htold fields hr)
    | created | revoked => exact htold

section Programs

variable {state : AppState} {db₀ : Tables} {p : Nat} {now : Int} {accountId keyId : Uuid}
  {publicKey fingerprint signatureHex hashHex : String} {label : Option String} {row : IdentityKey}
  {at_ : Int} {ε α : Type}

variable (db₀ p) in
/-- A program meets its postcondition, or ends early. -/
abbrev Serving (Pre : Local schema → Shared schema → Prop) (prog : Program schema ε α)
    (Post : α → Local schema → Shared schema → Prop) (E : ε → Shared schema → Prop) : Prop :=
  Spec (S := schema) (fun _ _ _ _ => true) (fun _ _ _ => True) (Kept db₀) p Pre prog Post E

variable (p now) in
/-- Inside the transaction. -/
abbrev Holding (ks : List Key) (F : Tables → Prop) (log : List Write) :
    Local schema → Shared schema → Prop :=
  InTx (S := schema) p (Held (S := schema) p now ks F log)

/-- **`SELECT … FOR UPDATE`** locks the row that it finds. -/
theorem serving_selectKey :
    Serving db₀ p (Holding p now [] (fun _ => True) []) (query (.selectKeyForUpdate keyId))
      (fun found => Holding p now (lockOf keyId found) (Found keyId found) []) fun _ _ => True := by
  refine spec_post (spec_held (S := schema) (s := .selectKeyForUpdate keyId) (K := lockOf keyId) (G := Found keyId) (W := fun _ => [])
    rfl framed_const framed_found (fun _ => steady_const) ?_ fun _ _ _ _ _ _ => trivial)
    (fun found l g h => ?_) fun _ _ h => h
  · intro g c found taken ws _ _ _ he
    have heffect : (Sql.selectKeyForUpdate keyId).effect (g.waits p) c now g.db =
      some (.ok (found, taken, ws)) := he
    obtain ⟨hfound, rfl, htaken⟩ := selectKeyForUpdate_ok heffect
    refine ⟨rfl, ?_, fun k hk => ?_, by simp⟩
    · cases found with
      | none => trivial
      | some row => exact hfound.symm
    · cases found with
      | none => exact absurd hk List.not_mem_nil
      | some row => exact Or.inr (htaken rfl ▸ hk)
  · rwa [List.append_nil] at h

/-- **The revocation** of the locked row, at the time of the transaction. -/
theorem serving_revokeKey :
    Serving db₀ p (Holding p now [.key keyId] (Found keyId (some row)) []) (query (.revokeKey keyId))
      (fun revokedAt l g => revokedAt = now ∧
        Holding p now [.key keyId] (Found keyId (some row)) [.revoke keyId now] l g)
      fun _ _ => True := by
  refine spec_post (spec_held (S := schema) (s := .revokeKey keyId) (K := fun _ => [.key keyId])
    (G := fun (revokedAt : Int) db => Found keyId (some row) db ∧ revokedAt = now)
    (W := fun _ => [.revoke keyId now]) rfl (framed_found (some row))
    (fun _ => (framed_found (some row)).and framed_const) (fun _ => steady_const) ?_
    fun _ _ _ _ _ _ => trivial) (fun revokedAt l g h => ?_) fun _ _ h => h
  · intro g c revokedAt taken ws hfound _ _ he
    have heffect : (Sql.revokeKey keyId).effect (g.waits p) c now g.db =
      some (.ok (revokedAt, taken, ws)) := he
    obtain ⟨hat, rfl, rfl⟩ := revokeKey_ok heffect
    exact ⟨rfl, ⟨hfound, hat⟩, fun k hk => Or.inl hk, by simp [Write.keys]⟩
  · obtain ⟨tx, rfl, ha, ho, hheld⟩ := h
    exact ⟨hheld.fact.2, tx, rfl, ha, ho, hheld.fresh, hheld.now, hheld.log, hheld.locks,
      hheld.fact.1⟩

/-- The event of an account has no other metadata. -/
theorem append_account {action : String} {metadata : Option Json} :
    append keyId "account" accountId action metadata =
      query (.insertAudit keyId "account" accountId action metadata) :=
  if_neg (by simp)

/-- **The audit event**, in the same transaction. -/
theorem serving_append :
    Serving db₀ p (Holding p now [.key keyId] (Found keyId (some row)) [.revoke keyId now])
      (append keyId "account" accountId "revoked" none)
      (fun event l g => (∃ id, event = ⟨id, keyId, "account", accountId, "revoked", none, now⟩) ∧
        Holding p now [.key keyId] (Found keyId (some row)) [.revoke keyId now, .insertAudit event] l g)
      fun _ _ => True := by
  rw [append_account]
  refine spec_post (spec_held (S := schema)
    (s := .insertAudit keyId "account" accountId "revoked" none) (K := fun _ => [.key keyId])
    (G := fun (event : IdentityAuditEvent) db => Found keyId (some row) db ∧
      ∃ id, event = ⟨id, keyId, "account", accountId, "revoked", none, now⟩)
    (W := fun event => [.insertAudit event]) rfl (framed_found (some row))
    (fun _ => (framed_found (some row)).and framed_const) (fun _ => steady_const) ?_
    fun _ _ _ _ _ _ => trivial) (fun event l g h => ?_) fun _ _ h => h
  · intro g c event taken ws hfound _ _ he
    have heffect : (Sql.insertAudit keyId "account" accountId "revoked" none).effect (g.waits p) c now
      (replay (S := schema) [.revoke keyId now] g.db) = some (.ok (event, taken, ws)) := he
    obtain ⟨hevent, rfl, rfl⟩ := insertAudit_ok heffect
    refine ⟨rfl, ⟨hfound, c.id, hevent⟩, fun k hk => Or.inl hk, fun w hw k hk => Or.inr ?_⟩
    obtain rfl := List.mem_singleton.mp hw
    rw [hevent] at hk
    exact hk
  · obtain ⟨tx, rfl, ha, ho, hheld⟩ := h
    exact ⟨hheld.fact.2, tx, rfl, ha, ho, hheld.fresh, hheld.now, hheld.log, hheld.locks,
      hheld.fact.1⟩

/-- Before the commit of a revocation: its writes are those of a live key of the account. -/
def Revoking (p : Nat) (now : Int) (accountId keyId : Uuid) (revoked : Uuid × Int) (l : Local schema)
    (g : Shared schema) : Prop :=
  ∃ row eventId, (row.id = keyId ∧ row.accountId = accountId ∧ row.revokedAt = none ∧
    revoked = (keyId, now)) ∧
      Holding p now [.key keyId] (Found keyId (some row)) (revocation row now eventId) l g

/-- A revocation waits for its commit. -/
theorem stable_revoking (revoked : Uuid × Int) :
    Stable (discipline (S := schema) (Kept db₀)) p (Revoking p now accountId keyId revoked) :=
  stable_exists fun row => stable_exists fun _ => stable_and (stable_held (framed_found (some row)))

/-- **`revokeInTx`.** -/
theorem serving_revokeInTx :
    Serving db₀ p (Holding p now [] (fun _ => True) []) (revokeInTx accountId keyId)
      (Revoking p now accountId keyId) fun _ _ => True := by
  unfold revokeInTx
  refine spec_bind (S := schema) (fun _ => steady_const) serving_selectKey fun found => ?_
  cases found with
  | none => exact spec_throw (stable_held framed_const) fun _ _ _ => trivial
  | some row =>
    have hst : Stable (discipline (S := schema) (Kept db₀)) p
        (Holding p now [.key keyId] (Found keyId (some row)) []) :=
      stable_held (framed_found (some row))
    refine spec_pre (P := fun l g => row.id = keyId ∧
        Holding p now [.key keyId] (Found keyId (some row)) [] l g) (fun l g h _ => ?_)
      (spec_and fun hid => ?_)
    · refine ⟨?_, h⟩
      obtain ⟨tx, -, -, -, hheld⟩ := h
      exact (mem_of_key? hheld.fact).2
    subst hid
    by_cases howner : row.accountId = accountId
    · subst howner
      by_cases hlive : row.revokedAt = none
      · simp only [hlive, bne_self_eq_false, Bool.false_eq_true, if_false, Option.isSome_none]
        refine spec_bind (S := schema) (fun _ => steady_const)
          serving_revokeKey fun revokedAt => spec_and fun hat => ?_
        refine spec_bind (S := schema) (fun _ => steady_const)
          serving_append fun event => spec_and fun hevent => ?_
        refine spec_pure (stable_held (framed_found (some row))) fun l g h => ?_
        obtain ⟨eventId, rfl⟩ := hevent
        exact ⟨row, eventId, ⟨rfl, rfl, hlive, by rw [hat]⟩, h⟩
      · have hrevoked : row.revokedAt.isSome = true := Option.isSome_iff_ne_none.mpr hlive
        simp only [bne_self_eq_false, Bool.false_eq_true, if_false, hrevoked, if_true]
        exact spec_throw hst fun _ _ _ => trivial
    · simp only [bne_iff_ne, ne_eq, howner, not_false_eq_true, if_true]
      exact spec_throw hst fun _ _ _ => trivial

/-- **The commit of a revocation** writes the time and the event together. -/
theorem serving_commit (state : AppState) {revoked : Uuid × Int} :
    Serving db₀ p (Revoking p now accountId keyId revoked)
      (commitTx (S := schema) fun _ => RevokeError.internal)
      (fun _ => Outside fun g => Told state db₀ p (.revoke accountId keyId)
        (.revoked (.ok ⟨revoked.1, "revoked", revoked.2⟩)) g.history) fun _ _ => True := by
  refine spec_exists fun row => spec_exists fun eventId => spec_and fun hrow => ?_
  obtain ⟨rfl, rfl, hlive, rfl⟩ := hrow
  refine spec_commit (S := schema) (framed_found (some row)) (Upward.steady (told_upward _ _))
    (fun _ => steady_const) (fun g _ hfound hk => ?_) fun _ _ => trivial
  have hrow : row ∈ g.db.keys := (mem_of_key? hfound).1
  have hcommits : Commits g.db (revocation row now eventId) := .revoked hrow hlive
  refine ⟨hk.record fun _ => ?_, fun resp hresp => ?_⟩
  · rwa [hk.replayed] at hcommits
  · obtain rfl := Except.ok.inj hresp
    refine ⟨g.history, row, eventId, ⟨?_, ?_⟩, rfl, rfl, rfl⟩
    · exact List.prefix_refl _
    · rwa [← hk.replayed]

/-- **`revoke_identity_key`.** -/
theorem serving_revokeIdentityKey :
    Serving db₀ p (Outside fun g => writesOf p g.history = []) (revokeIdentityKey accountId keyId)
      (fun resp => Outside fun g => Told state db₀ p (.revoke accountId keyId) (.revoked (.ok resp))
        g.history) fun _ _ => True := by
  unfold revokeIdentityKey
  refine spec_bind (S := schema) (fun _ => steady_const) (spec_begin (S := schema)
    (fun _ => steady_const) fun _ _ => trivial) fun _ => spec_exists fun now => spec_and fun _ => ?_
  refine spec_bind (S := schema) (fun _ => steady_const) (spec_orRollback (S := schema)
    stable_revoking (fun _ => steady_const) (fun _ => steady_const) (fun _ _ _ => trivial)
    serving_revokeInTx) fun revoked => ?_
  refine spec_bind (S := schema) (fun _ => steady_const) (serving_commit state) fun _ => ?_
  exact spec_pure (stable_outside (Upward.steady (told_upward _ _))) fun _ _ h => h

/-- A statement on the pool that writes nothing. -/
theorem serving_read {s : Sql} {f : DbError → ε} {P : Shared schema → Prop}
    {Q : s.Res → Shared schema → Prop} {E : ε → Shared schema → Prop} (hs : s.onPool = true)
    (hP : Steady (S := schema) (Kept db₀) p P) (hQ : ∀ a, Steady (S := schema) (Kept db₀) p (Q a))
    (hE : ∀ e, Steady (S := schema) (Kept db₀) p (E e))
    (hok : ∀ waits c now (g : Shared schema) a ks ws, P g → Kept db₀ g.db g.history →
      s.effect waits c now g.db = some (.ok (a, ks, ws)) → ws = [] ∧ Q a g)
    (herr : ∀ (g : Shared schema) e, P g → E (f e) g) :
    Serving db₀ p (Outside P) (sql (S := schema) f s) (fun a => Outside (Q a)) E := by
  refine spec_attempt (S := schema) (fun a => stable_outside (hQ a)) hE
    (triple_poolRead (S := schema) (Q := fun a => Outside (Q a)) hs (stable_outside hP)
      (fun a => stable_outside (hQ a)) (fun e => hE (f e)) ?_ fun l g e hp _ _ => herr g e hp)
  exact fun l g c a ks ws hp hk _ he => hok (g.waits p) c (schema.time c) g a ks ws hp hk he

/-- **`create`.** -/
theorem serving_create :
    Serving db₀ p (Outside fun g => writesOf p g.history = [])
      (create accountId publicKey fingerprint label)
      (fun row => Outside fun g => Told state db₀ p (.create accountId publicKey fingerprint label)
        (.created (.ok row)) g.history) fun _ _ => True := by
  unfold create
  refine spec_bind (S := schema) (fun _ => steady_const)
    (serving_read (s := .findByFingerprint fingerprint) (Q := fun _ _ => True) rfl
      (steady_own (S := schema) (P := (· = [])))
      (fun _ => steady_const) (fun _ => steady_const)
      (fun waits c now g a ks ws _ _ he => ⟨(findByFingerprint_ok he).2, trivial⟩)
      fun _ _ _ => trivial) fun found => ?_
  cases found with
  | some _ => exact spec_throw (stable_outside steady_const) fun _ _ _ => trivial
  | none =>
    refine spec_attempt (S := schema) (fun _ => stable_outside (Upward.steady (told_upward _ _)))
      (fun _ => steady_const) (triple_pool (S := schema)
        (s := .insertKey accountId publicKey fingerprint label) rfl steady_const
        (fun _ => Upward.steady (told_upward _ _)) (fun _ => steady_const) ?_
        fun _ _ _ _ _ => trivial)
    intro g c row ks ws _ hk _ he
    obtain ⟨rfl, hid, hfingerprint, rfl⟩ := insertKey_ok (c := c) he
    have hcommits : Commits g.db [.insertKey ⟨c.id, accountId, publicKey, fingerprint, label,
        schema.time c, schema.time c, none⟩] :=
      .created (key?_none.mp hid) (by simpa using List.find?_eq_none.mp hfingerprint) rfl
    refine ⟨hk.record fun _ => ?_, fun row hrow => ?_⟩
    · rwa [hk.replayed] at hcommits
    · obtain rfl := Except.ok.inj hrow
      exact ⟨⟨rfl, rfl, rfl, rfl⟩, g.history, List.prefix_refl _⟩

/-- What `checkIdentityKey` accepts. -/
theorem live_of_checked {key : IdentityKeyRow} {fields : Uuid × String × String}
    (h : checkIdentityKey state key signatureHex hashHex = .ok fields) : key.revokedAt = none := by
  unfold checkIdentityKey at h
  split at h
  · exact absurd h (by simp)
  · rename_i hlive
    exact Option.not_isSome_iff_eq_none.mp hlive

/-- A pure end of a program. -/
theorem serving_result {r : Except ε α} {P : Shared schema → Prop} {Q : α → Shared schema → Prop}
    {E : ε → Shared schema → Prop} (hP : Steady (S := schema) (Kept db₀) p P)
    (hok : ∀ a g, r = .ok a → P g → Q a g) (herr : ∀ e g, r = .error e → P g → E e g) :
    Serving db₀ p (Outside P) (ExceptT.mk (pure r)) (fun a => Outside (Q a)) E := by
  cases r with
  | ok a => exact spec_pure (S := schema) (stable_outside hP) fun _ g hp => hok a g rfl hp
  | error e => exact spec_throw (S := schema) (stable_outside hP) fun _ g hp => herr e g rfl hp

/-- **`validate_and_prepare`.** -/
theorem serving_validateAndPrepare {since : History schema} :
    Serving db₀ p (Outside fun g => since <+: g.history)
      (validateAndPrepare state accountId keyId signatureHex hashHex)
      (fun fields => Outside fun g =>
        Accepts state db₀ since accountId keyId signatureHex hashHex fields g.history)
      fun _ _ => True := by
  have hsince : Steady (S := schema) (Kept db₀) p fun g => since <+: g.history :=
    steady_past fun _ _ hp h => h.trans hp
  unfold validateAndPrepare
  refine spec_bind (S := schema) (fun _ => steady_const)
    (serving_read (s := .selectSigningKey keyId accountId) (Q := fun (found : Option IdentityKeyRow) g =>
      ∃ h', h' <+: g.history ∧ since <+: h' ∧
        (tablesAfter (S := schema) db₀ h').signingKey? keyId accountId = found)
      rfl hsince (fun _ => Upward.steady upward_past) (fun _ => steady_const)
      (fun waits c now g found ks ws hbegan hk he => ?_) fun _ _ _ => trivial) fun found => ?_
  · obtain ⟨rfl, rfl⟩ := selectSigningKey_ok he
    refine ⟨rfl, g.history, List.prefix_refl _, hbegan, ?_⟩
    rw [← hk.replayed]
  · cases found with
    | none => exact spec_throw (stable_outside (Upward.steady upward_past)) fun _ _ _ => trivial
    | some key =>
      refine serving_result (Upward.steady upward_past) (fun fields g hchecked hfound => ?_)
        fun _ _ _ _ => trivial
      obtain ⟨h', hp, hbegan, hkey⟩ := hfound
      obtain ⟨row, hrow, hid, howner, rfl⟩ := mem_of_signingKey? hkey
      have hlive : row.revokedAt = none := live_of_checked hchecked
      rw [hlive] at hchecked
      exact ⟨h', ⟨hbegan, hp⟩, row, hrow, hid, howner, hlive, hchecked⟩

/-- The reply of a program. -/
theorem triple_reply {prog : Program schema ε α} {f : Except ε α → Reply}
    {Pre : Local schema → Shared schema → Prop} {Q : Reply → Shared schema → Prop}
    {E : ε → Shared schema → Prop} (hQ : ∀ reply, Steady (S := schema) (Kept db₀) p (Q reply))
    (h : Serving db₀ p Pre prog (fun a => Outside (Q (f (.ok a)))) E)
    (herr : ∀ e g, E e g → Q (f (.error e)) g) :
    Triple ((system schema).restrict fun _ _ _ _ => true) (fun _ _ _ => True)
      (discipline (S := schema) (Kept db₀)) p Pre (prog.run >>= fun r => pure (f r))
      fun reply => Outside (Q reply) := by
  have hreply : Triple ((system schema).restrict fun _ _ _ _ => true) (fun _ _ _ => True)
      (discipline (S := schema) (Kept db₀)) p Pre prog.run fun r => Outside (Q (f r)) := by
    refine triple_post h fun r l g hr => ?_
    cases r with
    | ok a => exact hr
    | error e => exact herr e g hr
  exact triple_bind hreply fun r => triple_ret (stable_outside (hQ (f r))) fun _ _ hq _ => hq

/-- **A signature is checked** after the request has begun. -/
theorem triple_accepts {since : History schema} :
    Triple ((system schema).restrict fun _ _ _ _ => true) (fun _ _ _ => True)
      (discipline (S := schema) (Kept db₀)) p (Outside fun g => since <+: g.history)
      ((Request.validate accountId keyId signatureHex hashHex).run state)
      fun reply => Outside fun g => ∀ fields, reply = .signed (.ok fields) →
        Accepts state db₀ since accountId keyId signatureHex hashHex fields g.history := by
  have hup : ∀ reply : Reply, Upward (S := schema) fun h => ∀ fields, reply = .signed (.ok fields) →
      Accepts state db₀ since accountId keyId signatureHex hashHex fields h :=
    fun reply h h' hle hall fields hr => accepts_upward h h' hle (hall fields hr)
  have hserving : Serving db₀ p (Outside fun g => since <+: g.history)
      (validateAndPrepare state accountId keyId signatureHex hashHex)
      (fun a => Outside fun g => ∀ fields, Reply.signed (.ok a) = .signed (.ok fields) →
        Accepts state db₀ since accountId keyId signatureHex hashHex fields g.history)
      fun _ _ => True := by
    refine spec_post serving_validateAndPrepare (fun a l g h => ?_) fun _ _ h => h
    intro fields hfields
    rwa [← Except.ok.inj (Reply.signed.inj hfields)]
  exact triple_reply (fun reply => Upward.steady (hup reply)) hserving
    fun e g _ fields hfields => absurd hfields (by simp)

end Programs

/-- **Every request is told the truth.** -/
theorem serves_told (state : AppState) (db₀ : Tables) (requests : Nat → Request) :
    Serves (S := schema) (fun h _ log => Commits (tablesAfter (S := schema) db₀ h) log) db₀
      (fun p => (requests p).run state) (fun _ _ _ => True)
      fun p reply g => Told state db₀ p (requests p) reply g.history := by
  intro p
  beta_reduce
  cases requests p with
  | create accountId publicKey fingerprint label =>
    exact triple_reply (fun _ => Upward.steady (told_upward _ _)) serving_create
      fun e g _ row hrow => absurd hrow (by simp)
  | revoke accountId keyId =>
    exact triple_reply (fun _ => Upward.steady (told_upward _ _)) serving_revokeIdentityKey
      fun e g _ resp hresp => absurd hresp (by simp)
  | validate accountId keyId signatureHex hashHex =>
    refine triple_pre (fun l g _ _ => List.nil_prefix) (triple_reply
      (fun _ => Upward.steady (told_upward _ _)) (spec_post serving_validateAndPrepare
        (fun fields l g h fields' hfields => ?_) fun _ _ h => h)
      fun e g _ fields hfields => absurd hfields (by simp))
    rwa [← Except.ok.inj hfields]

/-! ## Requests about a revoked key -/

/-- A request about a key, or its fingerprint. -/
def About (row : IdentityKey) : Request → Prop
  | .create _ _ fingerprint _ => fingerprint = row.fingerprint
  | .revoke _ keyId | .validate _ keyId _ _ => keyId = row.id

/-- What a request about a revoked key is told. -/
def Refuses (row : IdentityKey) : Request → Reply → Prop
  | .create .., .created r => r = .error .fingerprintAlreadyExists ∨ r = .error .database
  | .revoke accountId _, .revoked r =>
    r = .error (if row.accountId = accountId then .identityKeyAlreadyRevoked else .identityKeyNotFound) ∨
      r = .error .internal
  | .validate accountId _ _ _, .signed r =>
    r = .error (if row.accountId = accountId then .keyRevoked else .keyNotFound) ∨
      ∃ e, r = .error (.database e)
  | _, _ => False

section Refusals

variable {state : AppState} {db₀ : Tables} {p : Nat} {row : IdentityKey} {accountId keyId : Uuid}
  {publicKey fingerprint signatureHex hashHex : String} {label : Option String} {at_ : Int}

/-- A later registration of the fingerprint. -/
theorem serving_create_dead (h₀ : IdentityOk db₀) (hr : row.revokedAt = some at_) :
    Serving db₀ p (Outside (Dead row)) (create accountId publicKey row.fingerprint label)
      (fun _ => Outside fun _ => False)
      fun e _ => e = .fingerprintAlreadyExists ∨ e = .database := by
  unfold create
  refine spec_bind (S := schema) (fun _ => steady_const)
    (serving_read (s := .findByFingerprint row.fingerprint)
      (Q := fun (found : Option IdentityKey) _ => found.isSome = true) rfl (steady_dead h₀ hr)
      (fun _ => steady_const) (fun _ => steady_const) (fun waits c now g found ks ws hdead _ he => ?_)
      fun _ _ _ => Or.inr rfl) fun found => ?_
  · obtain ⟨rfl, rfl⟩ := findByFingerprint_ok he
    exact ⟨rfl, List.find?_isSome.mpr ⟨row, hdead, by simp⟩⟩
  · cases found with
    | some _ => exact spec_throw (stable_outside steady_const) fun _ _ _ => Or.inl rfl
    | none =>
      exact spec_pre (P := fun _ _ => False) (fun _ _ h _ => Bool.false_ne_true h) fun _ _ h => h.elim

/-- A later signature of the key. -/
theorem serving_validate_dead (h₀ : IdentityOk db₀) (hr : row.revokedAt = some at_) :
    Serving db₀ p (Outside (Dead row)) (validateAndPrepare state accountId row.id signatureHex hashHex)
      (fun _ => Outside fun _ => False)
      fun e _ => e = (if row.accountId = accountId then .keyRevoked else .keyNotFound) ∨
        ∃ d, e = .database d := by
  unfold validateAndPrepare
  refine spec_bind (S := schema) (fun _ => steady_const)
    (serving_read (s := .selectSigningKey row.id accountId)
      (Q := fun (found : Option IdentityKeyRow) _ => found = if row.accountId = accountId then
        some ⟨row.id, row.accountId, row.publicKey, row.fingerprint, some row.verifiedAt, row.revokedAt⟩
        else none) rfl (steady_dead h₀ hr)
      (fun _ => steady_const) (fun _ => steady_const) (fun waits c now g found ks ws hdead hk he => ?_)
      fun _ e _ => Or.inr ⟨e, rfl⟩) fun found => ?_
  · obtain ⟨rfl, rfl⟩ := selectSigningKey_ok he
    exact ⟨rfl, (identityOk_of_kept h₀ hk).signingKey? hdead⟩
  · by_cases howner : row.accountId = accountId
    · simp only [howner, if_true]
      cases found with
      | none => exact spec_throw (stable_outside steady_const) fun _ _ h => (Option.some_ne_none _ h.symm).elim
      | some key =>
        refine serving_result steady_const (fun fields _ hchecked hfound => ?_) fun e _ hchecked hfound => ?_
        · obtain rfl := Option.some.inj hfound
          exact absurd ((live_of_checked hchecked).symm.trans hr) (by simp)
        · obtain rfl := Option.some.inj hfound
          simp only [checkIdentityKey, hr, Option.isSome_some, if_true, Except.error.injEq] at hchecked
          exact Or.inl hchecked.symm
    · simp only [howner, if_false]
      cases found with
      | none => exact spec_throw (stable_outside steady_const) fun _ _ _ => Or.inl rfl
      | some key =>
        exact spec_pre (P := fun _ _ => False) (fun _ _ h _ => Option.some_ne_none _ h)
          fun _ _ h => h.elim

/-- A transaction that has written nothing, and a revoked key. -/
def Begun (row : IdentityKey) (tx : Tx schema) (g : Shared schema) : Prop :=
  tx.log = [] ∧ Dead row g

/-- A transaction that has begun sees the key revoked. -/
theorem steady_begun (h₀ : IdentityOk db₀) (hr : row.revokedAt = some at_) (tx : Tx schema) :
    Steady (S := schema) (Kept db₀) p (Begun row tx) :=
  steady_and steady_const (steady_dead h₀ hr)

/-- The key is read as it is. -/
theorem serving_selectKey_dead (h₀ : IdentityOk db₀) (hr : row.revokedAt = some at_) :
    Serving db₀ p (InTx p (Begun row)) (query (.selectKeyForUpdate row.id))
      (fun found => InTx p fun _ _ => found = some row) fun e _ => e = .internal := by
  refine spec_attempt (S := schema) (fun _ => stable_inTx fun _ => steady_const)
    (fun _ => steady_const) (triple_sql (S := schema) (s := .selectKeyForUpdate row.id) rfl
      (steady_begun h₀ hr) (Q := fun found _ _ => found = some row) (fun _ _ => steady_const)
      (fun _ => steady_const) ?_ fun _ _ _ _ _ _ => rfl)
  rintro tx g c found ks ws ⟨hlog, hdead⟩ hk - he
  have heffect : (Sql.selectKeyForUpdate row.id).effect (g.waits p) c tx.now (view tx g) =
    some (.ok (found, ks, ws)) := he
  obtain ⟨hfound, rfl, -⟩ := selectKeyForUpdate_ok heffect
  refine ⟨by simp, ?_⟩
  rw [hfound, view, hlog]
  exact (identityOk_of_kept h₀ hk).key? hdead

/-- **A second revocation** is refused inside its transaction. -/
theorem serving_revokeInTx_dead (h₀ : IdentityOk db₀) (hr : row.revokedAt = some at_) :
    Serving db₀ p (InTx p (Begun row)) (revokeInTx accountId row.id)
      (fun _ => Outside fun _ => False)
      fun e _ => e = (if row.accountId = accountId then .identityKeyAlreadyRevoked
        else .identityKeyNotFound) ∨ e = .internal := by
  unfold revokeInTx
  refine spec_bind (S := schema) (fun _ => steady_const) (spec_post (serving_selectKey_dead h₀ hr)
    (fun _ _ _ h => h) fun _ _ h => Or.inr h) fun found => ?_
  cases found with
  | none =>
    refine spec_pre (P := fun _ _ => False) (fun l g h _ => ?_) fun _ _ h => h.elim
    obtain ⟨tx, -, -, -, hnone⟩ := h
    exact Option.some_ne_none _ hnone.symm
  | some key =>
    refine spec_pre (P := fun l g => key = row ∧ InTx (S := schema) p (fun _ _ => True) l g)
      (fun l g h _ => ?_) (spec_and fun hkey => ?_)
    · obtain ⟨tx, hl, ha, ho, hfound⟩ := h
      exact ⟨Option.some.inj hfound, tx, hl, ha, ho, trivial⟩
    subst hkey
    have hst : Stable (discipline (S := schema) (Kept db₀)) p (InTx p fun _ _ => True) :=
      stable_inTx fun _ => steady_const
    by_cases howner : key.accountId = accountId
    · simp only [howner, bne_self_eq_false, Bool.false_eq_true, if_false, hr, Option.isSome_some, if_true]
      exact spec_throw hst fun _ _ _ => Or.inl rfl
    · simp only [bne_iff_ne, ne_eq, howner, not_false_eq_true, if_true, if_false]
      exact spec_throw hst fun _ _ _ => Or.inl rfl

/-- A later revocation of the key. -/
theorem serving_revoke_dead (h₀ : IdentityOk db₀) (hr : row.revokedAt = some at_) :
    Serving db₀ p (Outside (Dead row)) (revokeIdentityKey accountId row.id)
      (fun _ => Outside fun _ => False)
      fun e _ => e = (if row.accountId = accountId then .identityKeyAlreadyRevoked
        else .identityKeyNotFound) ∨ e = .internal := by
  unfold revokeIdentityKey
  refine spec_bind (S := schema) (M := fun _ => InTx p (Begun row)) (fun _ => steady_const)
    (spec_attempt (S := schema) (fun _ => stable_inTx (steady_begun h₀ hr))
      (fun _ => steady_const) (triple_begin (S := schema) (P := Begun row) (steady_dead h₀ hr)
        (steady_begun h₀ hr) (fun _ => steady_const) (fun _ _ h _ => ⟨rfl, h⟩)
        fun _ _ _ _ _ => Or.inr rfl)) fun _ => ?_
  refine spec_bind (S := schema) (fun _ => steady_const) (spec_orRollback (S := schema)
    (fun _ => stable_outside steady_const) (fun _ => steady_const) (fun _ => steady_const)
    (fun _ _ h => h) (serving_revokeInTx_dead h₀ hr)) fun revoked => ?_
  exact spec_pre (P := fun _ _ => False) (fun _ _ h _ => h) fun _ _ h => h.elim

/-- **Every request that begins later is refused.** -/
theorem triple_refuses {request : Request} (h₀ : IdentityOk db₀) (hr : row.revokedAt = some at_)
    (habout : About row request) :
    Triple ((system schema).restrict fun _ _ _ _ => true) (fun _ _ _ => True)
      (discipline (S := schema) (Kept db₀)) p (Outside (Dead row)) (request.run state)
      fun reply => Outside fun _ => Refuses row request reply := by
  cases request with
  | create accountId publicKey fingerprint label =>
    obtain rfl : fingerprint = row.fingerprint := habout
    refine triple_reply (fun _ => steady_const) (spec_post (serving_create_dead h₀ hr)
      (fun _ _ _ h => h.elim) fun _ _ h => h) fun e _ h => ?_
    exact h.imp (congrArg Except.error) (congrArg Except.error)
  | revoke accountId keyId =>
    obtain rfl : keyId = row.id := habout
    refine triple_reply (fun _ => steady_const) (spec_post (serving_revoke_dead h₀ hr)
      (fun _ _ _ h => h.elim) fun _ _ h => h) fun e _ h => ?_
    exact h.imp (congrArg Except.error) (congrArg Except.error)
  | validate accountId keyId signatureHex hashHex =>
    obtain rfl : keyId = row.id := habout
    refine triple_reply (fun _ => steady_const) (spec_post (serving_validate_dead h₀ hr)
      (fun _ _ _ h => h.elim) fun _ _ h => h) fun e _ h => ?_
    refine h.imp (congrArg Except.error) fun hdb => ?_
    obtain ⟨d, rfl⟩ := hdb
    exact ⟨d, rfl⟩

end Refusals

/-! ## Runs -/

section Runs

variable {state : AppState} {db₀ : Tables} {requests : Nat → Request} {y z : IdentityConfig}
  {p q : Nat} {h h' : History schema}

/-- A revocation that was answered. -/
def Revoked (p : Nat) (resp : RevokeKeyResponse) (y : IdentityConfig) : Prop :=
  (y.procs p).1.result = some (.revoked (.ok resp))

/-- What holds of the tables and the answers. -/
structure RevocationsAudited (requests : Nat → Request) (y : IdentityConfig) : Prop where
  ok : IdentityOk y.shared.db
  told : ∀ p resp, Revoked p resp y → ∃ row ∈ y.shared.db.keys,
    requests p = .revoke row.accountId row.id ∧ row.revokedAt = some resp.revokedAt ∧
      resp = ⟨row.id, "revoked", resp.revokedAt⟩
  once : ∀ p q resp resp', Revoked p resp y → Revoked q resp' y → resp.keyId = resp'.keyId → p = q

/-- The row of a revocation in the history. -/
theorem revoked_of_prefix (h₀ : IdentityOk db₀) {db : Tables} {row : IdentityKey} {at_ : Int}
    {eventId : Uuid} (hk : Kept db₀ db h) (hp : h' ++ [(p, revocation row at_ eventId)] <+: h)
    (hrow : row ∈ (tablesAfter (S := schema) db₀ h').keys) :
    { row with revokedAt := some at_ } ∈ db.keys := by
  refine (later_of_kept h₀ hk hp).revoked ?_ rfl
  rw [tablesAfter_concat, replay_revocation, ← revokedRow_of_live (rfl : row.id = row.id)]
  exact List.mem_map_of_mem hrow

/-- What is revoked was there, and live. -/
theorem live_of_commits {db : Tables} {row : IdentityKey} {at_ : Int} {eventId : Uuid}
    (hc : Commits db (revocation row at_ eventId)) :
    ∃ key ∈ db.keys, key.id = row.id ∧ key.revokedAt = none := by
  generalize hlog : revocation row at_ eventId = log at hc
  cases hc with
  | created => exact absurd hlog (by simp [revocation])
  | @revoked key at' event hkey hlive =>
    simp only [revocation, List.cons.injEq, Write.revoke.injEq] at hlog
    exact ⟨key, hkey, hlog.1.1.symm, hlive⟩

/-- **A revoked key is not revoked again.** -/
theorem not_revoked_again (h₀ : IdentityOk db₀) {db : Tables} {row row' : IdentityKey} {at_ at' : Int}
    {eventId eventId' : Uuid} {h'' : History schema} (hk : Kept db₀ db h)
    (hp : h' ++ [(p, revocation row at_ eventId)] <+: h'')
    (hrow : row ∈ (tablesAfter (S := schema) db₀ h').keys)
    (hq : h'' ++ [(q, revocation row' at' eventId')] <+: h) : row.id ≠ row'.id := by
  intro hid
  have hk'' : Kept db₀ (tablesAfter (S := schema) db₀ h'') h'' :=
    hk.of_prefix ((List.prefix_append h'' _).trans hq)
  obtain ⟨key, hkey, hkeyId, hlive⟩ := live_of_commits (hk.commits h'' q _ hq)
  have hrevoked := revoked_of_prefix h₀ hk'' hp hrow
  have hsame := List.inj_on_of_nodup_map (identityOk_of_kept h₀ hk'').ids hkey hrevoked
    (hkeyId.trans hid.symm)
  rw [hsame] at hlive
  exact absurd hlive (by simp)

/-- **In every state reached every key has the trail that its row tells**, and who is told that a key is
revoked has revoked it, as its owner and as the only one. -/
theorem revocation_audited (h₀ : IdentityOk db₀)
    (hy : Reach (system schema) (fun _ _ _ => True) (start state db₀ requests) y) :
    RevocationsAudited requests y := by
  obtain ⟨hk, htold⟩ := reach_service (S := schema) (serves_told state db₀ requests) hy
  have hrevoked : ∀ p resp, Revoked p resp y → ∃ (h' : History schema) (row : IdentityKey)
      (eventId : Uuid), h' ++ [(p, revocation row resp.revokedAt eventId)] <+: y.shared.history ∧
        row ∈ (tablesAfter (S := schema) db₀ h').keys ∧
          requests p = .revoke row.accountId row.id ∧ resp = ⟨row.id, "revoked", resp.revokedAt⟩ := by
    intro p resp hresp
    have hp := htold p _ hresp
    cases hreq : requests p with
    | create | validate =>
      rw [hreq] at hp
      exact hp.elim
    | revoke accountId keyId =>
      rw [hreq] at hp
      obtain ⟨h', row, eventId, ⟨hpre, hrow⟩, rfl, rfl, hout⟩ := hp resp rfl
      exact ⟨h', row, eventId, hpre, hrow, rfl, hout⟩
  refine ⟨identityOk_of_kept h₀ hk, fun p resp hresp => ?_, fun p q resp resp' hresp hresp' hkey => ?_⟩
  · obtain ⟨h', row, eventId, hpre, hrow, hreq, hout⟩ := hrevoked p resp hresp
    exact ⟨_, revoked_of_prefix h₀ hk hpre hrow, hreq, rfl, hout⟩
  · obtain ⟨h', row, eventId, hpre, hrow, -, hout⟩ := hrevoked p resp hresp
    obtain ⟨h'', row', eventId', hpre', hrow', -, hout'⟩ := hrevoked q resp' hresp'
    have hid : row.id = row'.id := by
      rw [hout, hout'] at hkey
      exact hkey
    -- of two revocations in one history one comes first
    rcases List.prefix_or_prefix_of_prefix hpre hpre' with hle | hle
    · rcases List.prefix_concat_iff.mp hle with heq | hlt
      · exact (Prod.mk.inj (List.singleton_inj.mp (List.append_inj' heq rfl).2)).1
      · exact absurd hid (not_revoked_again h₀ hk hlt hrow hpre')
    · rcases List.prefix_concat_iff.mp hle with heq | hlt
      · exact (Prod.mk.inj (List.singleton_inj.mp (List.append_inj' heq rfl).2)).1.symm
      · exact absurd hid.symm (not_revoked_again h₀ hk hlt hrow' hpre)

/-- A request that has not begun. -/
def Waiting (state : AppState) (p : Nat) (requests : Nat → Request) (y : IdentityConfig) : Prop :=
  y.procs p = ((requests p).run state, none)

/-- **A revocation is for good**: the row stays as it is, and every request that begins later and is
about the key or its fingerprint is refused. -/
theorem revoked_for_good (h₀ : IdentityOk db₀) {resp : RevokeKeyResponse}
    (hy : Reach (system schema) (fun _ _ _ => True) (start state db₀ requests) y)
    (hq : Revoked q resp y) (hz : Reach (system schema) (fun _ _ _ => True) y z) :
    ∃ row ∈ y.shared.db.keys, row.id = resp.keyId ∧ row.revokedAt = some resp.revokedAt ∧
      row ∈ z.shared.db.keys ∧ ∀ p reply, Waiting state p requests y → About row (requests p) →
        (z.procs p).1.result = some reply → Refuses row (requests p) reply := by
  obtain ⟨row, hrow, -, hat, hout⟩ := (revocation_audited h₀ hy).told q resp hq
  have hserves := serves_told state db₀ requests
  obtain ⟨hk, -⟩ := reach_service (S := schema) hserves hy
  have hlater : Later y.shared.db z.shared.db := reach_relates (S := schema) Later hserves Later.refl
    (fun hab hbc => Later.trans hab hbc)
    (fun _ _ _ hk' hc => later_commits (identityOk_of_kept h₀ hk') hc) hy hz
  refine ⟨row, hrow, by rw [hout], hat, hlater.revoked hrow hat, fun p reply hwait habout hreply => ?_⟩
  have hinit : (discipline (S := schema) (Kept db₀)).Inv (start state db₀ requests).shared := logged_nil
  obtain ⟨hinv, hsafe⟩ := reach_safe hinit (safe_startOn (S := schema) hserves) hy
  refine reach_result (F := fun reply => Outside fun _ => Refuses row (requests p) reply) hinv hsafe ?_ hz
    hreply
  rw [hwait]
  exact triple_refuses h₀ hat habout none y.shared hrow hinv

/-- **A signature is accepted of a live key**: it verifies under a key of the account, and that key was
not revoked at some moment since the request began. -/
theorem accepted_key_live {accountId keyId : Uuid} {signatureHex hashHex : String}
    {fields : Uuid × String × String}
    (hy : Reach (system schema) (fun _ _ _ => True) (start state db₀ requests) y)
    (hwait : Waiting state p requests y)
    (hz : Reach (system schema) (fun _ _ _ => True) y z)
    (hp : requests p = .validate accountId keyId signatureHex hashHex)
    (hreply : (z.procs p).1.result = some (.signed (.ok fields))) :
    Accepts state db₀ y.shared.history accountId keyId signatureHex hashHex fields z.shared.history := by
  have hserves := serves_told state db₀ requests
  have hinit : (discipline (S := schema) (Kept db₀)).Inv (start state db₀ requests).shared := logged_nil
  obtain ⟨hinv, hsafe⟩ := reach_safe hinit (safe_startOn (S := schema) hserves) hy
  refine reach_result (F := fun reply => Outside fun g => ∀ fields, reply = .signed (.ok fields) →
    Accepts state db₀ y.shared.history accountId keyId signatureHex hashHex fields g.history) hinv hsafe ?_
    hz hreply fields rfl
  rw [hwait, hp]
  exact triple_accepts none y.shared (List.prefix_refl _) hinv

end Runs

/-! ## A run -/

section Samples

/-- A server that has one key of its own, which is also that of the account. -/
def sampleState : AppState :=
  ⟨IdentityKeys.sampleState.sha, IdentityKeys.sampleState.ed, ⟨IdentityKeys.samplePublicKey 1⟩⟩

def sampleHash : String := hexEncode (List.replicate 32 7)

def sampleSignature : String :=
  hexEncode (sampleState.ed.sign (IdentityKeys.samplePublicKey 1) (List.replicate 32 7)).1

/-- A key is created, used and revoked; then it is to be used, revoked and created again. -/
def sampleRequests : Nat → Request
  | 0 | 5 => .create (Uuid.small 1) (hexEncode (IdentityKeys.samplePublicKey 1).1) "ab" none
  | 1 | 3 => .validate (Uuid.small 1) (Uuid.small 9) sampleSignature sampleHash
  | _ => .revoke (Uuid.small 1) (Uuid.small 9)

/-- So many statements of a request, one after the other. -/
def sampleTurns (turns : List (Nat × Nat)) : List (Nat × Choice) :=
  turns.flatMap fun turn => List.replicate turn.2 (turn.1, ⟨false, turn.1, Uuid.small 9⟩)

/-- What the revocation is answered. -/
def sampleResponse : RevokeKeyResponse := ⟨Uuid.small 9, "revoked", 2⟩

theorem revocation_audited_sampleRun : ∃ y : IdentityConfig,
    Revoked 2 sampleResponse y ∧ ∃ row ∈ y.shared.db.keys, row.revokedAt = some 2 ∧
      ∃ id, y.shared.db.trail row.id = [⟨id, row.id, "account", row.accountId, "revoked", none, 2⟩] := by
  have hrun : ((start sampleState ⟨[], []⟩ sampleRequests).run (system schema) (fun _ _ _ => True)
      (sampleTurns [(0, 2), (1, 1), (2, 5)])).map (fun y => (y.procs 2).1.result) =
      some (some (.revoked (.ok sampleResponse))) := by decide +kernel
  obtain ⟨y, hy, hreply⟩ := Reach.exists_of_run hrun
  have haudited := revocation_audited identityOk_empty hy
  obtain ⟨row, hrow, -, hat, -⟩ := haudited.told 2 sampleResponse hreply
  have htrail := haudited.ok.audited row hrow
  unfold Audited at htrail
  rw [hat] at htrail
  exact ⟨y, hreply, row, hrow, hat, htrail⟩

theorem revoked_for_good_sampleRun : ∃ (y z : IdentityConfig) (row : IdentityKey),
    row ∈ y.shared.db.keys ∧ row ∈ z.shared.db.keys ∧ row.id = Uuid.small 9 ∧
      Refuses row (sampleRequests 3) (.signed (.error .keyRevoked)) := by
  have hrun : ((start sampleState ⟨[], []⟩ sampleRequests).run (system schema) (fun _ _ _ => True)
      (sampleTurns [(0, 2), (1, 1), (2, 5)])).bind (fun y =>
        (y.run (system schema) (fun _ _ _ => True) (sampleTurns [(3, 1), (4, 3), (5, 1)])).map fun z =>
          ((y.procs 2).1.result, (z.procs 3).1.result)) =
      some (some (.revoked (.ok sampleResponse)), some (.signed (.error .keyRevoked))) := by
    decide +kernel
  obtain ⟨y, z, hy, hz, hfacts, hidle⟩ := Reach.exists_of_runs hrun
  obtain ⟨hreply, hlater⟩ := Prod.mk.inj hfacts
  obtain ⟨row, hrow, hid, -, hlasts, hrefused⟩ := revoked_for_good identityOk_empty hy hreply hz
  exact ⟨y, z, row, hrow, hlasts, hid, hrefused 3 _ (hidle 3 (by decide)) hid.symm hlater⟩

theorem accepted_key_live_sampleRun : ∃ (y z : IdentityConfig) (fields : Uuid × String × String),
    Accepts sampleState ⟨[], []⟩ y.shared.history (Uuid.small 1) (Uuid.small 9) sampleSignature
      sampleHash fields z.shared.history := by
  have hrun : ((start sampleState ⟨[], []⟩ sampleRequests).run (system schema) (fun _ _ _ => True)
      (sampleTurns [(0, 2)])).bind (fun y =>
        (y.run (system schema) (fun _ _ _ => True) (sampleTurns [(1, 1)])).map fun z =>
          (z.procs 1).1.result) =
      some (some (.signed (.ok (Uuid.small 9, sampleSignature, "ab")))) := by
    decide +kernel
  obtain ⟨y, z, hy, hz, hreply, hidle⟩ := Reach.exists_of_runs hrun
  exact ⟨y, z, _, accepted_key_live hy (hidle 1 (by decide)) hz rfl hreply⟩

end Samples

end EvidentLedger.Identity
