import EvidentLedger.IdentityKeys.Steps

/-!
# One key for a challenge

A request statement by statement: what it knows of its challenge when it has read it (`Loaded`) and when it
has inserted its key (`Inserted`), and what its reply says about the trace.

## Results

* **`challenge_registers_one_key`**: in runs where every insertion is `Apart` and no update of a challenge
  fails, a challenge leads to one key at most and a request that fails to none.
* `challenge_registers_two`: two requests read one challenge before either marks it.
-/

namespace EvidentLedger.IdentityKeys

open Lib.Interleave Lib.Text

variable {requests : Nat → Request} {keys : List IdentityKey} {p : Nat} {g g' : Shared}
  {ch : Uuid} {e : Trace} {α : Type}

/-! ## A registration

`register_identity_key` without a transaction: it reads the challenge, inserts the key and marks the
challenge, each a statement of its own. -/

section Programs

variable {state : AppState} {accountId : Uuid} {challenge : IdentityChallenge}

variable (requests keys p) in
/-- Under the discipline, in runs with insertions that stand apart and marks that succeed. -/
abbrev Meets (Pre : Shared → Prop) (prog : Program α) (Post : α → Shared → Prop) : Prop :=
  Triple (system.restrict marksSucceed) (Apart requests) (discipline requests keys) p
    (fun _ g => Pre g) prog fun a _ g => Post a g

variable (requests keys p) in
/-- What the others leave alone. -/
abbrev Kept (P : Shared → Prop) : Prop :=
  Stable (discipline requests keys) p fun (_ : Unit) g => P g

/-- The request has done nothing yet. -/
def Fresh (p : Nat) (g : Shared) : Prop := ∀ e ∈ g.trace, e.caller ≠ p

/-- The request has inserted no key. -/
def NoKey (p : Nat) (g : Shared) : Prop := ∀ key, .inserted p key ∉ g.trace

variable (requests) in
/-- The request has read this challenge; where it was unused, it can still be used, or others have used
it since. -/
structure Loaded (p : Nat) (challenge : IdentityChallenge) (g : Shared) : Prop where
  trace : ∃ before after, g.trace = before ++ .loaded p :: after ∧ (∀ e ∈ before, e.caller ≠ p) ∧
    (∀ e ∈ after, e.caller ≠ p) ∧
    (challenge.isUsed = false → ¬ MarkedBy requests challenge.id before)
  opened : challenge.isUsed = false → Open requests challenge.id g
  requested : (requests p).challengeId? = some challenge.id

variable (requests) in
/-- The request has inserted its key, and its challenge is not marked by it. -/
structure Inserted (p : Nat) (challengeId : Uuid) (g : Shared) : Prop where
  inserted : ∃ key, .inserted p key ∈ g.trace
  unmarked : .marked p ∉ g.trace
  opened : Open requests challengeId g
  requested : (requests p).challengeId? = some challengeId

/-- The others append events of their own only. -/
theorem kept_fresh : Kept requests keys p (Fresh p) := by
  rintro l g g' h - ⟨⟨added, htrace, hothers⟩, -⟩ - e he
  rw [htrace] at he
  rcases List.mem_append.mp he with he | he
  · exact h e he
  · exact hothers e he

/-- Nobody inserts a key in the name of the request. -/
theorem kept_noKey : Kept requests keys p (NoKey p) := by
  rintro l g g' h - ⟨⟨added, htrace, hothers⟩, -⟩ - key he
  rw [htrace] at he
  rcases List.mem_append.mp he with he | he
  · exact h key he
  · exact hothers _ he rfl

/-- A challenge that has been read stays read, and open: whoever uses it marks it. -/
theorem kept_loaded : Kept requests keys p (Loaded requests p challenge) := by
  rintro l g g' ⟨⟨before, after, htrace, hbefore, hafter, hunmarked⟩, hopen, hreq⟩ -
    ⟨⟨added, htrace', hothers⟩, hopen'⟩ -
  refine ⟨⟨before, after ++ added, by rw [htrace', htrace]; simp, hbefore, fun e he => ?_,
    hunmarked⟩, fun h => hopen' _ (hopen h), hreq⟩
  rcases List.mem_append.mp he with he | he
  · exact hafter e he
  · exact hothers e he

/-- A key that has been inserted stays, and only its own request marks in its name. -/
theorem kept_inserted : Kept requests keys p (Inserted requests p ch) := by
  rintro l g g' ⟨⟨key, hkey⟩, hunmarked, hopen, hreq⟩ - ⟨⟨added, htrace, hothers⟩, hopen'⟩ -
  refine ⟨⟨key, ?_⟩, fun hmark => ?_, hopen' _ hopen, hreq⟩
  · rw [htrace]
    exact List.mem_append_left _ hkey
  · rw [htrace] at hmark
    rcases List.mem_append.mp hmark with hmark | hmark
    · exact hunmarked hmark
    · exact hothers _ hmark rfl

/-- A request that has done nothing has inserted no key. -/
theorem Fresh.noKey (h : Fresh p g) : NoKey p g := fun _ hmem => h _ hmem rfl

/-- A request that has read its challenge has only read it. -/
theorem Loaded.noKey (h : Loaded requests p challenge g) : NoKey p g := by
  intro key hmem
  obtain ⟨before, after, htrace, hbefore, hafter, -⟩ := h.trace
  rw [htrace] at hmem
  rcases List.mem_append.mp hmem with hmem | hmem
  · exact hbefore _ hmem rfl
  · rcases List.mem_cons.mp hmem with hmem | hmem
    · exact absurd hmem (by simp)
    · exact hafter _ hmem rfl

/-- Nor has it marked the challenge. -/
theorem Loaded.unmarked (h : Loaded requests p challenge g) : .marked p ∉ g.trace := by
  intro hmem
  obtain ⟨before, after, htrace, hbefore, hafter, -⟩ := h.trace
  rw [htrace] at hmem
  rcases List.mem_append.mp hmem with hmem | hmem
  · exact hbefore _ hmem rfl
  · rcases List.mem_cons.mp hmem with hmem | hmem
    · exact absurd hmem (by simp)
    · exact hafter _ hmem rfl

/-- **Nobody has inserted a key for the challenge** where an insertion stands apart. -/
theorem Loaded.insertionsOf_eq (h : Loaded requests p challenge g) (hunused : challenge.isUsed = false)
    {publicKey fingerprint : String} {label : Option String}
    (hok : Apart requests p (.insertKey accountId publicKey fingerprint label) g) :
    insertionsOf requests challenge.id g.trace = [] := by
  refine List.filter_eq_nil_iff.mpr fun e he hmatch => ?_
  obtain ⟨before, after, htrace, hbefore, -, hunmarked⟩ := h.trace
  -- an insertion for the challenge: its request has marked before this one has read, and then the
  -- challenge was not unused
  cases e with
  | loaded q | marked q => exact absurd hmatch (by simp)
  | inserted q key =>
    have hq : (requests q).challengeId? = some challenge.id := by simpa using hmatch
    have hmarked := hok _ he (hq.trans h.requested.symm)
    rw [htrace, beforeLoad_eq hbefore] at hmarked
    exact hunmarked hunused ⟨q, hmarked, hq⟩

/-! ### Its statements -/

/-- A statement fails and changes nothing, or it does what it says. -/
theorem statement_shared {c : Choice} {a : α} {f : Shared} {r : Except DbError α} {l : Unit}
    (h : statement c g a f = some (r, g', l)) :
    c.fails = true ∧ g' = g ∧ r = .error .other ∨ g' = f ∧ r = .ok a := by
  unfold statement at h
  split_ifs at h with hfails
  · obtain ⟨rfl, rfl, -⟩ := h
    exact Or.inl ⟨hfails, rfl, rfl⟩
  · obtain ⟨rfl, rfl, -⟩ := h
    exact Or.inr ⟨rfl, rfl⟩

/-- A statement that does not touch the tables. -/
theorem triple_read {q : Call} {P : Shared → Prop} (hP : Kept requests keys p P)
    (hexec : ∀ c g l r g' l', exec p c q g l = some (r, g', l') → g' = g) :
    Meets requests keys p P (Prog.call q) fun _ => P := by
  refine triple_call hP (fun _ => hP) fun l g c r g' l' h hi _ he => ?_
  obtain rfl := hexec c g l r g' l' (System.exec_of_restrict he).2
  exact ⟨keeps_same hi, h⟩

/-- **The challenge is read.** A row that is unused has not been marked by anyone before. -/
theorem triple_find {challengeId : Uuid} (hreq : (requests p).challengeId? = some challengeId) :
    Meets requests keys p (Fresh p) (Prog.call (Call.findByIdAndAccount challengeId accountId))
      fun (r : Except DbError (Option IdentityChallenge)) g => NoKey p g ∧
        ∀ challenge, r = .ok (some challenge) → Loaded requests p challenge g := by
  refine triple_call kept_fresh (fun r l g g' h hi hr hi' => ⟨kept_noKey l g g' h.1 hi hr hi',
    fun challenge hc => kept_loaded l g g' (h.2 challenge hc) hi hr hi'⟩) ?_
  intro l g c r g' l' h hi _ he
  obtain ⟨-, rfl, rfl⟩ | ⟨rfl, rfl⟩ := statement_shared (System.exec_of_restrict he).2
  · exact ⟨keeps_same hi, h.noKey, fun challenge hc => absurd hc (by simp)⟩
  -- found: the trace so far is what the request has read after
  · refine ⟨keeps_loaded hi, fun key hmem => ?_, fun challenge hc => ?_⟩
    · rcases List.mem_append.mp hmem with hmem | hmem
      · exact h _ hmem rfl
      · exact absurd (List.mem_singleton.mp hmem) (by simp)
    · have hfind := Except.ok.inj hc
      have hrow := List.mem_of_find?_eq_some hfind
      have hid : challenge.id = challengeId := by
        have := List.find?_some hfind
        simp only [Bool.and_eq_true, beq_iff_eq] at this
        exact this.1
      subst hid
      refine ⟨⟨g.trace, [], rfl, h, by simp, fun hunused hmarked => ?_⟩, fun hunused =>
        Or.inl ⟨challenge, hrow, rfl, hunused⟩, hreq⟩
      have hused := hi.used challenge hrow hmarked
      rw [hunused] at hused
      exact absurd hused (by simp)

/-- **The insertion** of a request that has read an unused challenge. -/
theorem triple_insertKey {publicKey fingerprint : String} {label : Option String}
    (hunused : challenge.isUsed = false) :
    Meets requests keys p (Loaded requests p challenge)
      (Prog.call (Call.insertKey accountId publicKey fingerprint label))
      fun (r : Except DbError IdentityKey) g => (∀ err, r = .error err → NoKey p g) ∧
        ∀ key, r = .ok key → Inserted requests p challenge.id g := by
  refine triple_call kept_loaded (fun r l g g' h hi hr hi' =>
    ⟨fun err hc => kept_noKey l g g' (h.1 err hc) hi hr hi',
      fun key hc => kept_inserted l g g' (h.2 key hc) hi hr hi'⟩) ?_
  intro l g c r g' l' h hi hok he
  have he' : (if g.keys.any fun row => row.id == (newKey c accountId publicKey fingerprint label).id ||
      row.fingerprint == (newKey c accountId publicKey fingerprint label).fingerprint then
      some ((.error .uniqueViolation : Except DbError IdentityKey), g, ())
    else statement c g (newKey c accountId publicKey fingerprint label)
      { g with
        keys := g.keys ++ [newKey c accountId publicKey fingerprint label]
        trace := g.trace ++ [.inserted p (newKey c accountId publicKey fingerprint label)] }) =
      some (r, g', l') := (System.exec_of_restrict he).2
  -- the id or the fingerprint is taken, the pool fails, or the key is inserted
  split_ifs at he'
  · obtain ⟨rfl, rfl, -⟩ := he'
    exact ⟨keeps_same hi, fun _ _ => h.noKey, fun key hc => absurd hc (by simp)⟩
  · obtain ⟨-, rfl, rfl⟩ | ⟨rfl, rfl⟩ := statement_shared he'
    · exact ⟨keeps_same hi, fun _ _ => h.noKey, fun key hc => absurd hc (by simp)⟩
    · refine ⟨keeps_inserted hi fun ch hch => ?_, fun err hc => absurd hc (by simp), fun key _ =>
        ⟨⟨_, List.mem_append_right _ List.mem_cons_self⟩, fun hmem => ?_,
          (h.opened hunused).imp_right MarkedBy.mono, h.requested⟩⟩
      · obtain rfl := Option.some.inj (h.requested.symm.trans hch)
        exact h.insertionsOf_eq hunused hok
      · rcases List.mem_append.mp hmem with hmem | hmem
        · exact h.unmarked hmem
        · exact absurd (List.mem_singleton.mp hmem) (by simp)

/-- Two insertions for one challenge are one. -/
theorem Inv.inserter_eq (hi : Inv requests keys g) {q : Nat} {key key' : IdentityKey}
    (hp : .inserted p key ∈ g.trace) (hq : .inserted q key' ∈ g.trace)
    (hch : (requests p).challengeId? = some ch) (hch' : (requests q).challengeId? = some ch) :
    q = p := by
  have hmem : Trace.inserted p key ∈ insertionsOf requests ch g.trace :=
    List.mem_filter.mpr ⟨hp, by simp [hch]⟩
  have hmem' : Trace.inserted q key' ∈ insertionsOf requests ch g.trace :=
    List.mem_filter.mpr ⟨hq, by simp [hch']⟩
  have hone := hi.single ch
  generalize insertionsOf requests ch g.trace = l at hmem hmem' hone
  -- the list holds one event at most, so both are this one
  match l with
  | [] => exact absurd hmem List.not_mem_nil
  | [e] =>
    have heq := (List.mem_singleton.mp hmem').trans (List.mem_singleton.mp hmem).symm
    exact (Trace.inserted.inj heq).1
  | _ :: _ :: _ => simp at hone

/-- **The challenge can still be used** by the request that has inserted its key. -/
theorem Inserted.unused (h : Inserted requests p ch g) (hi : Inv requests keys g) :
    ∃ row ∈ g.challenges, row.id = ch ∧ row.isUsed = false := by
  rcases h.opened with hopen | ⟨q, hq, hch⟩
  · exact hopen
  -- whoever has marked it has inserted a key for it, so it is this request itself
  · obtain ⟨key, hkey⟩ := h.inserted
    obtain ⟨key', hkey'⟩ := hi.marker q hq
    obtain rfl := hi.inserter_eq hkey hkey' h.requested hch
    exact absurd hq h.unmarked

/-- **The challenge is marked** by the request that has inserted its key: the row is there and
unused, so the update finds it. -/
theorem triple_markUsed {key : IdentityKey} :
    Meets requests keys p (Inserted requests p ch) (markUsed ch key)
      fun r _ => ∃ response, r = .ok response := by
  unfold markUsed
  refine triple_bind (M := fun (r : Except DbError (Option Uuid)) _ _ => r = .ok (some ch))
    (triple_call kept_inserted (fun r _ _ _ h _ _ _ => h) ?_) ?_
  · intro l g c r g' l' h hi _ he
    obtain ⟨hadmits, he⟩ := System.exec_of_restrict he
    have hfails : c.fails = false := by simpa [marksSucceed] using hadmits
    obtain ⟨row, hrow, hid, hunused⟩ := h.unused hi
    have hany : (g.challenges.any fun row => row.id == ch && !row.isUsed) = true :=
      List.any_eq_true.mpr ⟨row, hrow, by simp [hid, hunused]⟩
    have he' : (if g.challenges.any fun row => row.id == ch && !row.isUsed then
        statement c g (some ch)
          { g with
            challenges := g.challenges.map (·.mark ch c.now)
            trace := g.trace ++ [.marked p] }
      else statement c g none g) = some (r, g', l') := he
    -- the runs considered are those in which this update does not fail
    rw [if_pos hany] at he'
    obtain ⟨hfail, -⟩ | ⟨rfl, rfl⟩ := statement_shared he'
    · exact absurd hfail (by simp [hfails])
    · obtain ⟨key, hkey⟩ := h.inserted
      exact ⟨keeps_marked hi h.requested hkey ⟨row, hrow, hid⟩, rfl⟩
  · rintro (err | (_ | id))
    · exact triple_ret (fun _ _ _ h _ _ _ => h) fun _ _ h _ => absurd h (by simp)
    · exact triple_ret (fun _ _ _ h _ _ _ => h) fun _ _ h _ => absurd h (by simp)
    · exact triple_ret (fun _ _ _ h _ _ _ => h) fun _ _ _ _ => ⟨_, rfl⟩

/-- A request that fails leaves no key. -/
def Traceless {β : Type} (p : Nat) (r : Except Failure β) (g : Shared) : Prop :=
  ∀ err, r = .error err → NoKey p g

/-- A request that has inserted no key leaves none, whatever its reply. -/
theorem traceless_of_noKey {β : Type} {r : Except Failure β} (h : NoKey p g) : Traceless p r g :=
  fun _ _ => h

/-- An early return. -/
theorem triple_fail {β : Type} {P : Shared → Prop} {r : Except Failure β} (hP : Kept requests keys p P)
    (h : ∀ g, P g → NoKey p g) : Meets requests keys p P (.ret r) (Traceless p) :=
  triple_ret hP fun _ g hp _ => traceless_of_noKey (h g hp)

/-- `IdentityKeyRepository::create`: the fingerprint is looked up, and the key inserted. -/
theorem triple_create {publicKey fingerprint : String} {label : Option String}
    (hunused : challenge.isUsed = false) :
    Meets requests keys p (Loaded requests p challenge) (create accountId publicKey fingerprint label)
      fun r g => (∀ err, r = .error err → NoKey p g) ∧
        ∀ key, r = .ok key → Inserted requests p challenge.id g := by
  have hfail : ∀ err, Meets requests keys p (Loaded requests p challenge)
      (.ret (.error err : Except IdentityKeyError IdentityKey))
      fun r g => (∀ err, r = .error err → NoKey p g) ∧
        ∀ key, r = .ok key → Inserted requests p challenge.id g := fun err =>
    triple_ret kept_loaded fun _ _ h _ => ⟨fun _ _ => h.noKey, fun _ hc => absurd hc (by simp)⟩
  unfold create
  refine triple_bind (triple_read kept_loaded fun c g l r g' l' he => ?_) fun found => ?_
  · obtain ⟨-, h, -⟩ | ⟨h, -⟩ := statement_shared he
    · exact h
    · exact h
  -- the lookup fails, finds no such fingerprint, or finds one
  rcases found with err | (_ | row)
  · exact hfail _
  · refine triple_bind (triple_insertKey hunused) fun inserted => triple_ret ?_ fun _ g h _ => ?_
    · exact fun l g g' h hi hr hi' => ⟨fun err hc => kept_noKey l g g' (h.1 err hc) hi hr hi',
        fun key hc => kept_inserted l g g' (h.2 key hc) hi hr hi'⟩
    · cases inserted with
      | error err => exact ⟨fun _ _ => h.1 err rfl, fun _ hc => absurd hc (by simp [Except.mapError])⟩
      | ok key => exact ⟨fun _ hc => absurd hc (by simp [Except.mapError]), fun _ _ => h.2 key rfl⟩
  · exact hfail _

/-- **The rest of a registration**, with an unused challenge. -/
theorem triple_registerKey {body : RegisterKeyRequest} (hunused : challenge.isUsed = false) :
    Meets requests keys p (Loaded requests p challenge) (registerKey state accountId body challenge)
      (Traceless p) := by
  have hloaded : ∀ g, Loaded requests p challenge g → NoKey p g := fun _ h => h.noKey
  unfold registerKey
  -- the checks before the insertion: the challenge's bytes, the signature, the fingerprint
  cases hexDecode challenge.challenge with
  | none => exact triple_fail kept_loaded hloaded
  | some rawChallenge =>
    dsimp only
    split_ifs
    · exact triple_fail kept_loaded hloaded
    cases fingerprintFromPublicKeyHex state body.publicKey with
    | none => exact triple_fail kept_loaded hloaded
    | some fingerprint =>
      refine triple_bind (triple_create hunused) fun created => ?_
      cases created with
      | error err =>
        refine triple_pre (P := fun _ g => NoKey p g) (fun _ g h _ => h.1 err rfl) ?_
        cases err with
        | fingerprintAlreadyExists => exact triple_fail kept_noKey fun _ h => h
        | database => exact triple_fail kept_noKey fun _ h => h
      | ok key =>
        refine triple_pre (P := fun _ g => Inserted requests p challenge.id g)
          (fun _ g h _ => h.2 key rfl) ?_
        refine triple_post triple_markUsed fun r _ g h err hc => ?_
        obtain ⟨response, rfl⟩ := h
        exact absurd hc (by simp)

/-- `validate` lets an unused challenge through, and no other. -/
theorem triple_validate :
    Meets requests keys p (Loaded requests p challenge) (validate challenge)
      fun r g => Loaded requests p challenge g ∧ ∀ u, r = .ok u → challenge.isUsed = false := by
  unfold validate
  split_ifs with hused
  · exact triple_ret kept_loaded fun _ _ h _ => ⟨h, fun _ hc => absurd hc (by simp)⟩
  · refine triple_bind (triple_read kept_loaded fun c g l r g' l' he => ?_) fun now =>
      triple_ret kept_loaded fun _ _ h _ => ⟨h, fun _ _ => eq_false_of_ne_true hused⟩
    obtain ⟨-, rfl, -⟩ := he
    rfl

/-- A registration whose account has the feature. -/
theorem triple_registerEntitled {body : RegisterKeyRequest}
    (hreq : (requests p).challengeId? = some body.challengeId) :
    Meets requests keys p (Fresh p) (registerEntitled state accountId body) (Traceless p) := by
  unfold registerEntitled
  refine triple_bind (triple_find hreq) fun found => ?_
  rcases found with err | (_ | challenge)
  · exact triple_pre (P := fun _ g => NoKey p g) (fun _ _ h _ => h.1)
      (triple_fail kept_noKey fun _ h => h)
  · exact triple_pre (P := fun _ g => NoKey p g) (fun _ _ h _ => h.1)
      (triple_fail kept_noKey fun _ h => h)
  · refine triple_pre (P := fun _ g => Loaded requests p challenge g)
      (fun _ _ h _ => h.2 challenge rfl) (triple_bind triple_validate fun validated => ?_)
    cases validated with
    | error err =>
      exact triple_pre (P := fun _ g => NoKey p g) (fun _ _ h _ => h.1.noKey)
        (triple_fail kept_noKey fun _ h => h)
    | ok u =>
      intro l g h hi
      exact triple_registerKey (h.2 u rfl) l g h.1 hi

/-- What is left of the plan. -/
theorem triple_requireFeature :
    Meets requests keys p (Fresh p) (Prog.call (Call.requireFeature accountId)) fun _ => Fresh p := by
  refine triple_read kept_fresh fun c g l r g' l' he => ?_
  obtain ⟨-, rfl, -⟩ := he
  rfl

/-- **`register_identity_key`** leaves no key when it fails. -/
theorem triple_registerHandler {body : RegisterKeyRequest}
    (hreq : (requests p).challengeId? = some body.challengeId) :
    Meets requests keys p (Fresh p) (registerHandler state accountId body) (Traceless p) := by
  unfold registerHandler
  refine triple_bind triple_requireFeature fun entitled => ?_
  cases entitled with
  | false => exact triple_fail kept_fresh fun _ h => h.noKey
  | true => exact triple_registerEntitled hreq

/-- `create_challenge` has nothing to do with the keys. -/
theorem triple_challengeHandler :
    Meets requests keys p (Fresh p) (challengeHandler accountId) (Traceless p) := by
  unfold challengeHandler
  refine triple_bind triple_requireFeature fun entitled => ?_
  cases entitled with
  | false => exact triple_fail kept_fresh fun _ h => h.noKey
  | true =>
    refine triple_bind (M := fun _ _ g => Fresh p g) (triple_call kept_fresh (fun _ => kept_fresh) ?_)
      fun inserted => ?_
    · intro l g c r g' l' h hi _ he
      have he' : (if g.challenges.any (·.id == c.id) then
          some ((.error .uniqueViolation : Except DbError IdentityChallenge), g, ())
        else statement c g (newChallenge c accountId)
          { g with challenges := g.challenges ++ [newChallenge c accountId] }) = some (r, g', l') :=
        (System.exec_of_restrict he).2
      -- the id of a new challenge may be taken, which is a unique violation
      split_ifs at he' with htaken
      · obtain ⟨-, rfl, -⟩ := he'
        exact ⟨keeps_same hi, h⟩
      · obtain ⟨-, rfl, -⟩ | ⟨rfl, -⟩ := statement_shared he'
        · exact ⟨keeps_same hi, h⟩
        · refine ⟨keeps_challenge hi fun other hother hid => htaken ?_, h⟩
          exact List.any_eq_true.mpr ⟨other, hother, beq_iff_eq.mpr hid⟩
    · cases inserted with
      | error err => exact triple_fail kept_fresh fun _ h => h.noKey
      | ok challenge => exact triple_fail kept_fresh fun _ h => h.noKey

/-- A reply that is an error. -/
def Reply.failed : Reply → Bool
  | .challenge (.error _) | .registered (.error _) => true
  | _ => false

/-- **Every request.** -/
theorem triple_run :
    Meets requests keys p (Fresh p) ((requests p).run state)
      fun reply g => reply.failed = true → NoKey p g := by
  have hkept : ∀ {β : Type} (r : Except Failure β), Kept requests keys p (Traceless p r) :=
    fun r l g g' h hi hr hi' err hc => kept_noKey l g g' (h err hc) hi hr hi'
  cases hreq : requests p with
  | challenge accountId =>
    refine triple_bind triple_challengeHandler fun r => triple_ret (hkept r) fun _ g h _ hf => ?_
    cases r with
    | error err => exact h err rfl
    | ok _ => exact absurd hf (by simp [Reply.failed])
  | register accountId body =>
    refine triple_bind (triple_registerHandler (by rw [hreq]; rfl)) fun r =>
      triple_ret (hkept r) fun _ g h _ hf => ?_
    cases r with
    | error err => exact h err rfl
    | ok _ => exact absurd hf (by simp [Reply.failed])

end Programs

/-! ## One key for a challenge -/

/-- **A challenge registers one key at most**, and a request that fails leaves the keys as they are, in
every run with insertions that stand apart and marks that succeed. -/
theorem challenge_registers_one_key (state : AppState) (requests : Nat → Request)
    (challenges : List IdentityChallenge) (keys : List IdentityKey) (y : KeyConfig)
    (hy : Reach (system.restrict marksSucceed) (Apart requests)
      (start state requests challenges keys) y) :
    (∀ challengeId, (insertionsOf requests challengeId y.shared.trace).length ≤ 1) ∧
    y.shared.keys = keys ++ y.shared.trace.filterMap Trace.key? ∧
    ∀ p reply, (y.procs p).1.result = some reply → reply.failed = true →
      ∀ key, .inserted p key ∉ y.shared.trace := by
  have hstart : Inv requests keys (start state requests challenges keys).shared :=
    ⟨fun _ _ ⟨q, hq, _⟩ => absurd hq List.not_mem_nil, fun _ ⟨q, hq, _⟩ => absurd hq List.not_mem_nil,
      fun q hq => absurd hq List.not_mem_nil, fun _ => Nat.zero_le 1, (List.append_nil keys).symm⟩
  obtain ⟨hinv, hsafe⟩ := reach_safe (D := discipline requests keys) hstart
    (fun p => @triple_run requests keys p state _ _ (fun e he => absurd he List.not_mem_nil) hstart)
    hy
  exact ⟨hinv.single, hinv.keys, fun p reply hreply hfailed =>
    (hsafe p).result hinv hreply hfailed⟩

/-- A server, a challenge, and two keys for it. -/
def sampleState : AppState := ⟨sampleSha, sampleEd []⟩

def sampleChallenge : IdentityChallenge := ⟨Uuid.small 3, Uuid.small 1, "ab", 0, 300000000, none⟩

def samplePublicKey (p : Nat) : Bytes 32 := ⟨List.replicate 32 (UInt8.ofNat p), by simp⟩

def sampleRequests (p : Nat) : Request :=
  .register (Uuid.small 1) ⟨Uuid.small 3, hexEncode (samplePublicKey p).1,
    hexEncode (sampleState.ed.sign (samplePublicKey p) [0xab]).1, none⟩

def sampleSteps (calls : List Nat) : List (Nat × Choice) :=
  calls.map fun p => (p, ⟨false, 0, Uuid.small (UInt8.ofNat (10 + p)), "", true⟩)

/-- One after the other, the second finds the challenge used. -/
theorem challenge_registers_one_key_sampleRun : ∃ y : KeyConfig,
    (y.procs 1).1.result.any Reply.failed = true ∧ y.shared.keys.length = 1 ∧
      (insertionsOf sampleRequests (Uuid.small 3) y.shared.trace).length ≤ 1 := by
  have hrun : ((start sampleState sampleRequests [sampleChallenge] []).run
      (system.restrict marksSucceed) (Apart sampleRequests)
      (sampleSteps [0, 0, 0, 0, 0, 0, 1, 1])).map (fun y =>
        ((y.procs 1).1.result.any Reply.failed, y.shared.keys.length)) = some (true, 1) := by
    decide +kernel
  obtain ⟨y, hy, hfacts⟩ := Reach.exists_of_run hrun
  obtain ⟨hfailed, hone⟩ := Prod.mk.inj hfacts
  exact ⟨y, hfailed, hone,
    (challenge_registers_one_key sampleState sampleRequests [sampleChallenge] [] y hy).1 _⟩

/-- **Both read the challenge before either marks it**: it leads to two keys, and the second request
fails although its key is there. -/
theorem challenge_registers_two : ∃ y : KeyConfig,
    Reach system (fun _ _ _ => True) (start sampleState sampleRequests [sampleChallenge] []) y ∧
      (insertionsOf sampleRequests (Uuid.small 3) y.shared.trace).length = 2 ∧
      (y.procs 1).1.result.any Reply.failed = true ∧
      (y.shared.trace.any fun e => e.caller == 1 && e.key?.isSome) = true := by
  have hrun : ((start sampleState sampleRequests [sampleChallenge] []).run system
      (fun _ _ _ => True) (sampleSteps [0, 0, 0, 1, 1, 1, 0, 0, 0, 1, 1, 1])).map (fun y =>
        ((insertionsOf sampleRequests (Uuid.small 3) y.shared.trace).length,
          (y.procs 1).1.result.any Reply.failed,
          y.shared.trace.any fun e => e.caller == 1 && e.key?.isSome)) = some (2, true, true) := by
    decide +kernel
  obtain ⟨y, hy, hfacts⟩ := Reach.exists_of_run hrun
  obtain ⟨htwo, hfacts⟩ := Prod.mk.inj hfacts
  obtain ⟨hfailed, hkey⟩ := Prod.mk.inj hfacts
  exact ⟨y, hy, htwo, hfailed, hkey⟩

end EvidentLedger.IdentityKeys
