import EvidentLedger.Ledger.Insert

/-!
# After the commit

What `compute_chain_root`, `stamp_chain` and `finalize_event_submission` see and store once the
transaction of an event is over (`service/ledger.rs:395-472`, `tsa_worker.rs:7-46`). Nothing is
locked any more: other events of the chain may be committed before every one of these statements.

* `Late`: the only way to fail here is that one of three reads fails, after the event has landed.
* `spec_after`: a read on the pool tells what the tables held at some moment since the commit.
* `triple_postCommitTsa`: the token is for the root of the chain as it was read then.
* `spec_finalizeEventSubmission`: the response carries the snapshot's root and signature with the
  rows as they were read then.
-/

namespace EvidentLedger.Ledger

open Lib.Interleave Lib.Transaction

variable {x : Setting} {p : Nat} {account : Uuid} {req : SubmitEventRequest} {eventId : Uuid}
  {snapshot : ProofSnapshot} {after : List Write} {ε : Type}

variable (x p) in
/-- A statement of the request fails after it has committed something. -/
def LateAt (s : Sql) : Prop :=
  ∃ (ch : Choice) (g : Shared schema), x.admits p ch (.sql s) g = true ∧ ch.fails = true ∧
    writesOf p g.history ≠ []

/-- The reads after the commit whose failure fails the request. -/
def Sql.afterCommit : Sql → Bool
  | .selectCapabilities _ => true
  | .selectTsaRecord _ _ => true
  | .selectChainEvents .finalizeEventSubmission _ => true
  | _ => false

variable (x p) in
/-- One of these reads fails. -/
def Late : Prop := ∃ s : Sql, s.afterCommit = true ∧ LateAt x p s

variable (x p account req eventId snapshot after) in
/-- A statement that the request issued after its commit, and what it saw. -/
def SeenAfter (s : Sql) (F : Shared schema → Prop) (h : History schema) : Prop :=
  Seen x.ok x.db₀ p (.sql s) h fun g => After x p account req eventId snapshot after g ∧ F g

theorem steady_seenAfter {s : Sql} {F : Shared schema → Prop} : Steady x.Inv p fun g =>
    SeenAfter x p account req eventId snapshot after s F g.history :=
  steady_past fun _ _ hp h => h.mono hp

/-- A read on the pool that always answers. -/
theorem triple_after {s : Sql} {G : s.Res → Shared schema → Prop} (hs : s.onPool = true)
    (hok : ∀ (g : Shared schema) ch a ks ws, x.Inv g.db g.history →
      s.effect (g.waits p) ch ch.time g.db = some (.ok (a, ks, ws)) → ws = [] ∧ G a g)
    (herr : ∀ (g : Shared schema) ch e, x.Inv g.db g.history →
      s.effect (g.waits p) ch ch.time g.db ≠ some (.error e)) :
    x.Triple p (Outside (After x p account req eventId snapshot after)) (runSql s)
      (Returns (fun a => Outside fun g => After x p account req eventId snapshot after g ∧
          SeenAfter x p account req eventId snapshot after s (G a) g.history)
        fun e g => After x p account req eventId snapshot after g ∧ LateAt x p s ∧ e = .io) := by
  refine triple_poolRead (S := schema) hs (stable_outside steady_after)
    (fun _ => stable_outside (steady_and steady_after steady_seenAfter))
    (fun _ => steady_and steady_after steady_const) ?_ ?_
  · intro l g ch a ks ws h hi hq he
    obtain ⟨rfl, hG⟩ := hok g ch a ks ws hi he
    exact ⟨rfl, h, g, hq, hi.replayed, List.prefix_refl _, h, hG⟩
  · rintro l g e h hi ⟨ch, hadm, ⟨hf, rfl⟩ | he⟩
    · exact ⟨h, ⟨ch, g, hadm, hf, Landed.writes_ne h⟩, rfl⟩
    · exact absurd he (herr g ch e hi)

/-- The same in a program that may end early. -/
theorem spec_after {f : DbError → ε} {s : Sql} {G : s.Res → Shared schema → Prop}
    (hs : s.onPool = true) (hafter : s.afterCommit = true)
    (hok : ∀ (g : Shared schema) ch a ks ws, x.Inv g.db g.history →
      s.effect (g.waits p) ch ch.time g.db = some (.ok (a, ks, ws)) → ws = [] ∧ G a g)
    (herr : ∀ (g : Shared schema) ch e, x.Inv g.db g.history →
      s.effect (g.waits p) ch ch.time g.db ≠ some (.error e)) :
    x.Spec p (Outside (After x p account req eventId snapshot after)) (statement f s)
      (fun a => Outside fun g => After x p account req eventId snapshot after g ∧
        SeenAfter x p account req eventId snapshot after s (G a) g.history)
      fun e _ => Late x p ∧ e = f .io :=
  spec_attempt (S := schema) (fun _ => stable_outside (steady_and steady_after steady_seenAfter))
    (fun _ => steady_const)
    (triple_post (triple_after hs hok herr) fun r l g h => by
      cases r with
      | ok a => exact h
      | error e => exact ⟨⟨s, hafter, h.2.1⟩, congrArg f h.2.2⟩)

/-- The rows of a chain in the order of their sequences, as a reader gets them. -/
def chainRows (g : Shared schema) (c : Uuid) : List EventRow :=
  rows (orderBySequence (Db.eventsOf g.db c))

/-- **The post-commit read of the chain.** -/
theorem triple_selectChainEvents {reader : ChainReader} {c : Uuid} :
    x.Triple p (Outside (After x p account req eventId snapshot after))
      (runSql (.selectChainEvents reader c))
      (Returns (fun events => Outside fun g => After x p account req eventId snapshot after g ∧
          SeenAfter x p account req eventId snapshot after (.selectChainEvents reader c)
            (fun g' => events = chainRows g' c) g.history)
        fun e g => After x p account req eventId snapshot after g ∧
          LateAt x p (.selectChainEvents reader c) ∧ e = .io) :=
  triple_after (s := .selectChainEvents reader c)
    (G := fun (events : List EventRow) g => events = chainRows g c) rfl
    (fun g ch events ks ws _ he => ⟨(selectChainEvents_ok he).2, (selectChainEvents_ok he).1⟩)
    fun g ch e _ => by simp [Sql.effect, reads]

/-! ## The token -/

variable (x p account req eventId snapshot after) in
/-- The root was computed from the chain as it was at some moment since the commit. -/
def RootSeen (c : Uuid) (root : String) (h : History schema) : Prop :=
  SeenAfter x p account req eventId snapshot after (.selectChainEvents .computeChainRoot c)
    (fun g => chainRoot x.state (chainRows g c) = some root) h

theorem triple_computeChainRoot {c : Uuid} :
    x.Triple p (Outside (After x p account req eventId snapshot after)) (computeChainRoot x.state c)
      (fun answer => Outside fun g => After x p account req eventId snapshot after g ∧
        ∀ root, answer = some root →
          RootSeen x p account req eventId snapshot after c root g.history) := by
  have hst : ∀ (answer : Option String), Steady x.Inv p fun g =>
      After x p account req eventId snapshot after g ∧ ∀ root, answer = some root →
        RootSeen x p account req eventId snapshot after c root g.history := fun answer =>
    steady_and steady_after fun g g' h hi hr hi' root hroot =>
      steady_seenAfter g g' (h root hroot) hi hr hi'
  refine triple_bind triple_selectChainEvents fun answer => ?_
  cases answer with
  | error err =>
    exact triple_ret (stable_outside (steady_and steady_after steady_const)) fun _ _ h _ =>
      ⟨h.1, fun _ hr => absurd hr (by simp)⟩
  | ok events =>
    refine triple_ret (stable_outside (steady_and steady_after steady_seenAfter)) ?_
    rintro l g ⟨h, g', hq, hdb, hp, hlanded, rfl⟩ -
    exact ⟨h, fun root hroot => ⟨g', hq, hdb, hp, hlanded, hroot⟩⟩

/-- **Storing the token** is a commit of its own. -/
theorem triple_insertTsaToken (row : TsaTokenRow) (hc : row.chainId = req.chainId)
    (he : row.eventId = eventId) :
    x.Triple p (Outside fun g => After x p account req eventId snapshot after g ∧
        RootSeen x p account req eventId snapshot after row.chainId row.merkleRoot g.history)
      (runSql (.insertTsaToken row))
      (Returns (fun _ => Outside (After x p account req eventId snapshot after))
        fun _ => After x p account req eventId snapshot after) := by
  refine triple_pool (S := schema) rfl (steady_and steady_after steady_seenAfter)
    (fun _ => steady_after) (fun _ => steady_after) ?_ fun _ _ h _ _ => h.1
  rintro g ch a ks ws ⟨h, hroot⟩ hi - heff
  have heff : (Sql.insertTsaToken row).effect (g.waits p) ch ch.time g.db =
    some (.ok (a, ks, ws)) := heff
  rcases insertTsaToken_ok heff with rfl | ⟨hnone, rfl⟩
  · exact ⟨hi, h⟩
  · subst he
    have hp : g.history <+: record (S := schema) p [.insertTsaToken row] g.history :=
      record_prefix _ _ _
    refine ⟨hi.record fun _ => ?_, Landed.mono hp h⟩
    rw [hi.replayed] at hnone
    exact .token hc h hroot hnone

/-- With nothing more to store. -/
theorem triple_done {P : Shared schema → Prop} (hP : Steady x.Inv p P) :
    x.Triple p (Outside fun g => After x p account req eventId snapshot after g ∧ P g)
      (pure () : Action Unit)
      (fun _ => Outside (After x p account req eventId snapshot after)) :=
  triple_ret (stable_outside (steady_and steady_after hP)) fun _ _ h _ => h.1

theorem triple_stampChain {root : String} :
    x.Triple p (Outside fun g => After x p account req eventId snapshot after g ∧
        RootSeen x p account req eventId snapshot after req.chainId root g.history)
      (stampChain req.chainId root eventId)
      (fun _ => Outside (After x p account req eventId snapshot after)) := by
  unfold stampChain
  cases decodeArray 32 root with
  | none => exact triple_done steady_seenAfter
  | some hash =>
    refine triple_bind (triple_ask (stable_outside (steady_and steady_after steady_seenAfter)))
      fun resp => ?_
    refine triple_pre (fun _ _ h _ => h.1) ?_
    cases resp with
    | none => exact triple_done steady_seenAfter
    | some resp =>
      refine triple_bind (triple_insertTsaToken ⟨req.chainId, eventId, root, resp.token,
        resp.timestamp, resp.serial⟩ rfl rfl) fun answer => ?_
      cases answer with
      | ok _ => exact triple_ret (stable_outside steady_after) fun _ _ h _ => h
      | error _ => exact triple_ret (stable_outside steady_after) fun _ _ h _ => h

/-- **The token of an event.** -/
theorem triple_postCommitTsa :
    x.Triple p (Outside (After x p account req eventId snapshot after))
      (postCommitTsa x.state req.chainId eventId)
      (fun _ => Outside (After x p account req eventId snapshot after)) := by
  refine triple_bind triple_computeChainRoot fun answer => ?_
  cases answer with
  | none => exact triple_post (triple_pre (fun _ _ h _ => ⟨h.1, trivial⟩) (triple_done
      (P := fun _ => True) steady_const)) fun _ _ _ h => h
  | some root => exact triple_pre (fun _ _ h _ => ⟨h.1, h.2 root rfl⟩) triple_stampChain

/-! ## The response -/

theorem triple_publish {fileHash tsaClass : String} :
    x.Triple p (Outside (After x p account req eventId snapshot after))
      (publish eventId fileHash tsaClass)
      (fun _ => Outside (After x p account req eventId snapshot after)) :=
  triple_bind (triple_ask (stable_outside steady_after)) fun _ =>
    triple_ret (fun _ _ _ h hi hr hi' => ⟨steady_after _ _ h.1 hi hr hi', h.2⟩) fun _ _ h _ => h.1

/-- The plan of an account that has committed is there. -/
theorem spec_publishLegacy {fileHash : String} {status : ProofStatus}
    (hcap : ∃ capabilities, x.db₀.capabilities account = some capabilities) :
    x.Spec p (Outside (After x p account req eventId snapshot after))
      (publishLegacy account eventId fileHash status)
      (fun _ => Outside (After x p account req eventId snapshot after))
      fun e _ => Late x p ∧ e = .databaseError .io := by
  unfold publishLegacy
  split_ifs
  · refine spec_bind (fun _ => steady_const) (spec_after (s := .selectCapabilities account)
      (G := fun _ _ => True) rfl rfl
      (fun g ch a ks ws _ he => ⟨(selectCapabilities_ok he).2, trivial⟩) ?_) fun capabilities => ?_
    · intro g ch e hi he
      obtain ⟨capabilities, hcap⟩ := hcap
      rw [hi.replayed] at he
      simp only [Sql.effect, tables_capabilities, hcap] at he
      exact absurd he (by simp [reads])
    · exact spec_pre (fun _ _ h _ => h.1)
        (spec_lift (S := schema) (fun _ => stable_outside steady_after) triple_publish)
  · exact spec_pure (stable_outside steady_after) fun _ _ h => h

variable (x p account req) in
/-- **The response of `finalize_event_submission`**: the snapshot, and the rows as they were read at
some moment since the commit. -/
def Answered (h : History schema) (response : CommitResponse) : Prop :=
  ∃ eventId snapshot after sequence events tsa,
    response = commitResponse req.chainId eventId sequence snapshot.merkleRoot snapshot.signature
      snapshot.publicKey events tsa ∧
    SeenAfter x p account req eventId snapshot after
      (.selectChainEvents .finalizeEventSubmission req.chainId)
      (fun g => events = chainRows g req.chainId) h

theorem steady_answered {response : CommitResponse} :
    Steady x.Inv p fun g => Answered x p account req g.history response := by
  rintro g g' ⟨eventId, snapshot, after, sequence, events, tsa, hresponse, hseen⟩ hi hr hi'
  exact ⟨eventId, snapshot, after, sequence, events, tsa, hresponse,
    steady_seenAfter g g' hseen hi hr hi'⟩

/-- **`finalize_event_submission`.** -/
theorem spec_finalizeEventSubmission {sequence : Int64} :
    x.Spec p (Outside (After x p account req eventId snapshot after))
      (finalizeEventSubmission x.state req.chainId eventId sequence snapshot.merkleRoot
        snapshot.signature snapshot.publicKey)
      (fun response => Outside fun g => Answered x p account req g.history response)
      fun e _ => Late x p ∧ e = .databaseError .io := by
  refine spec_bind (fun _ => steady_const) (spec_lift (S := schema)
    (fun _ => stable_outside steady_after) triple_postCommitTsa) fun _ => ?_
  refine spec_bind (fun _ => steady_const) (spec_after
    (s := .selectTsaRecord req.chainId eventId) (G := fun _ _ => True) rfl rfl
    (fun g ch a ks ws _ he => ⟨(reads_ok he).2.2, trivial⟩)
    fun g ch e _ => by simp [Sql.effect, reads]) fun tsa => ?_
  refine spec_pre (fun _ _ h _ => h.1) ?_
  refine spec_bind (fun _ => steady_const) (spec_after
    (s := .selectChainEvents .finalizeEventSubmission req.chainId)
    (G := fun (events : List EventRow) g => events = chainRows g req.chainId) rfl rfl
    (fun g ch a ks ws _ he => ⟨(selectChainEvents_ok he).2, (selectChainEvents_ok he).1⟩)
    fun g ch e _ => by simp [Sql.effect, reads]) fun events => ?_
  exact spec_pure (stable_outside (steady_and steady_after steady_seenAfter)) fun _ _ h =>
    ⟨eventId, snapshot, after, sequence, events, tsa, rfl, h.2⟩

end EvidentLedger.Ledger
