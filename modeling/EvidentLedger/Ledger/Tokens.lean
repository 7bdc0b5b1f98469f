import EvidentLedger.Ledger.Tamper

/-!
# The token of an event

The rows of `tsa_tokens` and the events they name. `stamp_chain` stores the token of an event under the
root of the whole chain, as `compute_chain_root` reads it after the commit; `load_tsa_row_for_root` looks
for the root of the prefix that ends at the event (`src/tsa_worker.rs:7-46`,
`api/v1/proof_state.rs:132-151`).

* `TokenOf`: a row carries the root of the prefix of its event, and is found for that event.
* `Recorded.tokenKeys`: a chain and a root have one row.
* **`tokens_belong`**: every row belongs to its event, in every run where `compute_chain_root` finds the
  request's own event last. `token_of_two_events` is a run where it does not.
-/

namespace EvidentLedger.Ledger

open Lib.Interleave Lib.Transaction

/-- **The row of an event**: stored under the root signed for it, and found by the read path. -/
def TokenOf (state : ReadState) (db : Db) (row : TsaTokenRow) (e : EventRecord) : Prop :=
  e.eventId = row.eventId ∧ ∃ before, before ++ [e] <+: db.eventsOf row.chainId ∧
    row.merkleRoot = recomputeRootFromEvents state.sha (rows (before ++ [e])) ∧
    e.signature = signatureOf state.toAppState row.chainId e.eventId (before ++ [e]) ∧
    db.tsaToken? e.chainId (readSnapshot state db e).merkleRoot = some row

section Rows

variable {state : AppState} {requests : Nat → Request} {ok : Nat → Call schema → Shared schema → Prop}
  {db₀ db : Db} {h : History schema} {p : Nat} {log : List Write}

/-- The chain and the root of a row. -/
def TsaTokenRow.key (row : TsaTokenRow) : Uuid × String := (row.chainId, row.merkleRoot)

theorem find_tsaToken (hkeys : (db.tsaTokens.map TsaTokenRow.key).Nodup) {row : TsaTokenRow}
    (hrow : row ∈ db.tsaTokens) : db.tsaToken? row.chainId row.merkleRoot = some row := by
  cases hf : db.tsaToken? row.chainId row.merkleRoot with
  | none => simpa using List.find?_eq_none.mp hf row hrow
  | some found =>
    have hkey := List.find?_some hf
    simp only [Bool.and_eq_true, beq_iff_eq] at hkey
    rw [List.inj_on_of_nodup_map hkeys (List.mem_of_find?_eq_some hf) hrow
      (Prod.ext hkey.1 hkey.2)]

/-- A commit stores no token, or nothing else. -/
theorem Kind.tokens (hk : Kind state ok db₀ p db log) :
    (replay (S := schema) log db).tsaTokens = db.tsaTokens ∨
      ∃ row, log = [.insertTsaToken row] ∧ db.tsaToken? row.chainId row.merkleRoot = none ∧
        (replay (S := schema) log db).tsaTokens = db.tsaTokens ++ [row] := by
  cases hk with
  | chain => exact Or.inl rfl
  | event hadds hafter =>
    refine Or.inl ?_
    rw [tokens_replay, effects_append, hadds.valid.effects_log]
    rcases hafter with rfl | ⟨r, rfl, -⟩
    · exact List.append_nil _
    · exact List.append_nil _
  | token hnew => exact Or.inr ⟨_, rfl, hnew, rfl⟩

/-- **A chain and a root have one row.** -/
theorem Recorded.tokenKeys (hr : Recorded state requests ok db₀ db h)
    (hkeys : (db₀.tsaTokens.map TsaTokenRow.key).Nodup) :
    (db.tsaTokens.map TsaTokenRow.key).Nodup := by
  rw [hr.replayed]
  refine hr.induction (motive := fun h => ((tables db₀ h).tsaTokens.map TsaTokenRow.key).Nodup) hkeys ?_
  intro h p log _ hc ih
  rw [tables_concat]
  rcases hc.kind.tokens with hsame | ⟨row, -, hnew, hmore⟩
  · rwa [hsame]
  · rw [hmore, List.map_append, List.map_singleton]
    refine List.nodup_append.mpr ⟨ih, List.nodup_singleton _, ?_⟩
    rintro x hx z hz rfl
    obtain ⟨other, hother, hkey⟩ := List.mem_map.mp hx
    rw [List.mem_singleton.mp hz] at hkey
    obtain ⟨hchain, hroot⟩ := Prod.mk.inj hkey
    have hne := List.find?_eq_none.mp hnew other hother
    simp [hchain, hroot] at hne

/-- What a commit that stores a token has seen. -/
theorem Commit.token_seen {log : List Write} (hc : Commit state requests ok db₀ h p log)
    {row : TsaTokenRow} (hlog : log = [.insertTsaToken row]) :
    ∃ account req snapshot after, row.chainId = req.chainId ∧
      Seen ok db₀ p (.sql (.selectChainEvents .computeChainRoot row.chainId)) h fun g =>
        Landed state ok db₀ p account req row.eventId snapshot after g.history ∧
          chainRoot state (chainRows g row.chainId) = some row.merkleRoot := by
  have hnone : ∀ {account : Uuid} {req : SubmitEventRequest} {a : Addition} {after : List Write},
      Adds ok db₀ p account req a (tables db₀ h) →
        a.log state (tables db₀ h) ++ after ≠ [.insertTsaToken row] := by
    intro account req a after hadds heq
    have heffects := congrArg effects heq
    rw [effects_append, hadds.valid.effects_log] at heffects
    exact absurd (List.cons.inj heffects).1 (by simp)
  cases hc with
  | chain => exact absurd hlog (by simp)
  | legacy _ _ hadds => exact absurd ((List.append_nil _).trans hlog) (hnone hadds)
  | v1 _ _ _ hadds => exact absurd hlog (hnone hadds)
  | token hchain _ hseen =>
    obtain rfl := Write.insertTsaToken.inj (List.cons.inj hlog).1
    exact ⟨_, _, _, _, hchain, hseen⟩

/-- **Calm reads of the root** store every token under the root of its event. -/
theorem Recorded.tokenRoots (hr : Recorded state requests ok db₀ db h) (hi : LedgerInv state db₀)
    (hnone : db₀.tsaTokens = [])
    (hcalm : ∀ p c g, ok p (.sql (.selectChainEvents .computeChainRoot c)) g → OwnLast p c g) :
    ∀ row ∈ db.tsaTokens, ∃ before e, before ++ [e] <+: db.eventsOf row.chainId ∧
      e.eventId = row.eventId ∧
      row.merkleRoot = recomputeRootFromEvents state.sha (rows (before ++ [e])) := by
  have hbase := hr
  rw [hr.replayed]
  refine hr.induction (motive := fun h => ∀ row ∈ (tables db₀ h).tsaTokens, ∃ before e,
    before ++ [e] <+: (tables db₀ h).eventsOf row.chainId ∧ e.eventId = row.eventId ∧
      row.merkleRoot = recomputeRootFromEvents state.sha (rows (before ++ [e]))) ?_ ?_
  · intro row hrow
    change row ∈ db₀.tsaTokens at hrow
    rw [hnone] at hrow
    exact absurd hrow (by simp)
  intro h p log hr' hc ih row hrow
  have hgrow : ∀ c, (tables db₀ h).eventsOf c <+: (tables db₀ (h ++ [(p, log)])).eventsOf c := by
    intro c
    rw [tables_concat]
    exact hc.kind.events.filter _
  have hpast : row ∈ (tables db₀ h).tsaTokens → ∃ before e,
      before ++ [e] <+: (tables db₀ (h ++ [(p, log)])).eventsOf row.chainId ∧
        e.eventId = row.eventId ∧
        row.merkleRoot = recomputeRootFromEvents state.sha (rows (before ++ [e])) := by
    intro hold
    obtain ⟨before, e, hp, hid, hroot⟩ := ih row hold
    exact ⟨before, e, hp.trans (hgrow _), hid, hroot⟩
  rw [tables_concat] at hrow
  rcases hc.kind.tokens with hsame | ⟨new, rfl, -, hmore⟩
  · rw [hsame] at hrow
    exact hpast hrow
  · rw [hmore] at hrow
    rcases List.mem_append.mp hrow with hold | hnew
    · exact hpast hold
    · obtain rfl := List.mem_singleton.mp hnew
      obtain ⟨account, req, snapshot, after, hchain, g, hok, hdb, hp, hlanded, hroot⟩ := hc.token_seen rfl
      -- the chain as it was read for the token
      have hg : Recorded state requests ok db₀ g.db g.history := by
        rw [hdb]
        exact hr'.of_prefix hp
      have hlast := hcalm _ _ _ hok
      have hfound : Db.eventsOf g.db row.chainId <+: (tables db₀ h).eventsOf row.chainId := by
        rw [hdb]
        exact (hr'.events hp).filter _
      rw [hchain] at hlast hroot hfound ⊢
      obtain ⟨before, e, hrows, hplace, -, hid, -⟩ := Landed.readBack hg hi hlanded hlast
      rw [hrows, chainRoot, if_neg (by simp [rows])] at hroot
      exact ⟨before, e, (hplace.trans hfound).trans (hgrow _), hid, (Option.some.inj hroot).symm⟩

end Rows

/-- **A token belongs to the event that it is stored under**, in every run where the query of the root
finds the request's own event last. -/
theorem tokens_belong (state : ReadState) (requests : Nat → Request)
    (capabilities : Uuid → Option AccountCapabilities) (identityKeys : List IdentityKeyRow)
    (y : LedgerConfig)
    (hy : Reach (system schema) (allowed fun _ reader => reader = .computeChainRoot)
      (start state.toAppState requests (Db.empty capabilities identityKeys)) y) :
    ∀ row ∈ y.shared.db.tsaTokens, ∃ e ∈ y.shared.db.events, TokenOf state y.shared.db row e := by
  let x : Setting := .quiet (fun _ reader => reader = .computeChainRoot) state.toAppState requests
    capabilities identityKeys
  have hx : x.Reach (start x.state x.requests x.db₀) y := hy
  have hr := (ledger_reach hx).1
  have hi₀ : LedgerInv state.toAppState x.db₀ := ledgerInv_empty capabilities identityKeys
  have hi : LedgerInv state.toAppState y.shared.db := hr.ledgerInv hi₀
  intro row hrow
  obtain ⟨before, e, hp, hid, hroot⟩ :=
    hr.tokenRoots hi₀ rfl (fun _ _ _ hok => hok _ rfl rfl) row hrow
  have hroot : row.merkleRoot = recomputeRootFromEvents state.sha (rows (before ++ [e])) := hroot
  have hmem : e ∈ y.shared.db.eventsOf row.chainId := hp.subset (by simp)
  have hchain : e.chainId = row.chainId := by simpa using (List.mem_filter.mp hmem).2
  have hp' : before ++ [e] <+: y.shared.db.eventsOf e.chainId := hchain ▸ hp
  refine ⟨e, (List.mem_filter.mp hmem).1, hid, before, hp, hroot, (hi.chains _).signed before e hp, ?_⟩
  rw [readSnapshot_committed hi hp']
  change y.shared.db.tsaToken? e.chainId (recomputeRootFromEvents state.sha (rows (before ++ [e]))) = _
  rw [← hroot, hchain]
  exact find_tsaToken (hr.tokenKeys List.nodup_nil) hrow

/-! ## Two runs -/

/-- What the time-stamping authority answers. -/
def sampleToken : TsaToken := ⟨[1], 1700000000, "01"⟩

theorem tokens_belong_sampleRun : ∃ (y : LedgerConfig) (row : TsaTokenRow), row ∈ y.shared.db.tsaTokens ∧
    ∃ e ∈ y.shared.db.events, TokenOf sampleVerifier y.shared.db row e := by
  have hrun : ((start sampleVerifier.toAppState sampleRequests (Db.empty sampleCapabilities [])).run
      (system schema) (allowed fun _ reader => reader = .computeChainRoot)
      (sampleSteps 0 15 20 none ++ sampleSteps 0 6 20 (some sampleToken))).map
        (fun y => y.shared.db.tsaTokens.length) = some 1 := by decide +kernel
  obtain ⟨y, hy, hlen⟩ := Reach.exists_of_run hrun
  obtain ⟨row, hrow⟩ := List.exists_mem_of_length_pos (by rw [hlen]; decide)
  exact ⟨y, row, hrow, tokens_belong sampleVerifier sampleRequests sampleCapabilities [] y hy row hrow⟩

/-- **Another commit before the root is read**: the token of the first event is for both. -/
theorem token_of_two_events : ∃ y : LedgerConfig,
    Reach (system schema) (fun _ _ _ => True)
      (start sampleVerifier.toAppState sampleRequests (Db.empty sampleCapabilities [])) y ∧
    ∃ row ∈ y.shared.db.tsaTokens,
      ¬ ∃ e ∈ y.shared.db.events, TokenOf sampleVerifier y.shared.db row e := by
  have hrun : ((start sampleVerifier.toAppState sampleRequests (Db.empty sampleCapabilities [])).run
      (system schema) (fun _ _ _ => True)
      (sampleSteps 0 15 20 none ++ sampleSteps 1 16 21 none ++ sampleSteps 0 6 20 (some sampleToken))).map
        (fun y => (y.shared.db.tsaTokens.length, y.shared.db.tsaTokens.all fun row =>
          y.shared.db.events.all fun e => e.eventId != row.eventId ||
            y.shared.db.tsaToken? e.chainId (readSnapshot sampleVerifier y.shared.db e).merkleRoot !=
              some row)) = some (1, true) := by decide +kernel
  obtain ⟨y, hy, hout⟩ := Reach.exists_of_run hrun
  obtain ⟨hlen, hnone⟩ := Prod.mk.inj hout
  obtain ⟨row, hrow⟩ := List.exists_mem_of_length_pos (by rw [hlen]; decide)
  refine ⟨y, hy, row, hrow, ?_⟩
  rintro ⟨e, he, hid, -, -, -, -, hfound⟩
  have hbad := List.all_eq_true.mp (List.all_eq_true.mp hnone row hrow) e he
  simp [hid, hfound] at hbad

end EvidentLedger.Ledger
