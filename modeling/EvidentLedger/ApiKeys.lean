import EvidentLedger.Lib.Interleave
import EvidentLedger.Uuid

/-!
# API keys

Model of `create_api_key` and `revoke_api_key` (`src/service/accounts.rs:394-481`). A revocation counts
the active keys of the account, looks whether the key is one of them, and updates it, in three statements
of their own; a creation is a transaction.

* `Shared.trace` is what was counted and revoked so far. No function reads it.
* The local state is the row that a transaction has inserted and not committed.
* A statement may fail, and so may a commit; then it changes nothing.

## Results

* `countP_revoke`: an update takes one active key away at most.
* **`never_locked_out_iff`**: an account keeps an active key in every run whose updates are
  `Uncontested`, and loses its last one by every update that is not.
* `locked_out`: two revocations that count before either updates.
-/

namespace EvidentLedger.ApiKeys

open Lib.Interleave

/-! ## Rows -/

/-- A row of `api_keys`. -/
structure ApiKeyRow where
  apiKeyId : Uuid
  accountId : Uuid
  keyHash : String
  keyPrefix : String
  label : String
  createdAt : Int
  revokedAt : Option Int
  deriving DecidableEq

structure ApiKeyRecord where
  apiKeyId : Uuid
  keyPrefix : String
  label : String
  createdAt : Int
  revokedAt : Option Int
  deriving DecidableEq

structure GeneratedApiKey where
  fullKey : String
  keyHash : String
  keyPrefix : String
  deriving DecidableEq

namespace ApiKeyRow

/-- `account_id = $1 AND revoked_at IS NULL`. -/
def isActive (accountId : Uuid) (row : ApiKeyRow) : Bool :=
  row.accountId == accountId && row.revokedAt.isNone

/-- `api_key_id = $1 AND account_id = $2 AND revoked_at IS NULL`. -/
def isActiveKey (apiKeyId accountId : Uuid) (row : ApiKeyRow) : Bool :=
  row.apiKeyId == apiKeyId && row.isActive accountId

/-- `SET revoked_at = now()`, on the rows of the condition. -/
def revoke (apiKeyId accountId : Uuid) (now : Int) (row : ApiKeyRow) : ApiKeyRow :=
  if row.isActiveKey apiKeyId accountId then { row with revokedAt := some now } else row

def record (row : ApiKeyRow) : ApiKeyRecord :=
  ⟨row.apiKeyId, row.keyPrefix, row.label, row.createdAt, row.revokedAt⟩

@[simp] theorem revoke_apiKeyId {apiKeyId accountId : Uuid} {now : Int} {row : ApiKeyRow} :
    (row.revoke apiKeyId accountId now).apiKeyId = row.apiKeyId := by
  unfold revoke
  split_ifs <;> rfl

end ApiKeyRow

/-- `SELECT COUNT(*)`. -/
def activeCount (accountId : Uuid) (keys : List ApiKeyRow) : Nat :=
  keys.countP (·.isActive accountId)

/-! ## Statements -/

/-- An entry of the trace, with the number of the call. -/
inductive Trace where
  | counted (p : Nat)
  | revoked (p : Nat) (accountId : Uuid)
  deriving DecidableEq

def Trace.caller : Trace → Nat
  | counted p | revoked p _ => p

structure Shared where
  keys : List ApiKeyRow
  trace : List Trace

/-- How a statement ends, and what it finds outside the tables. -/
structure Choice where
  fails : Bool
  now : Int
  apiKeyId : Uuid
  generated : GeneratedApiKey

inductive Call where
  | countActive (accountId : Uuid)
  | ownsKey (apiKeyId accountId : Uuid)
  | update (apiKeyId accountId : Uuid)
  | generateApiKey
  | insertApiKey (accountId : Uuid) (keyHash keyPrefix label : String)
  | selectByHash (keyHash : String)
  | commit

def Call.Answer : Call → Type
  | countActive _ => Except String Nat
  | ownsKey _ _ => Except String Bool
  | update _ _ => Except String Nat
  | generateApiKey => GeneratedApiKey
  | insertApiKey .. => Except String Unit
  | selectByHash _ => Except String ApiKeyRecord
  | commit => Except String Unit

abbrev Local := Option ApiKeyRow

/-- A statement that may fail. -/
def statement (c : Choice) {α : Type} (g : Shared) (l : Local) (answer : α) (g' : Shared) (l' : Local) :
    Option (Except String α × Shared × Local) :=
  if c.fails then some (.error "database error", g, l) else some (.ok answer, g', l')

def exec (p : Nat) (c : Choice) :
    (q : Call) → Shared → Local → Option (q.Answer × Shared × Local)
  | .countActive accountId, g, l =>
    statement c g l (activeCount accountId g.keys) { g with trace := g.trace ++ [.counted p] } l
  | .ownsKey apiKeyId accountId, g, l =>
    statement c g l (g.keys.any (·.isActiveKey apiKeyId accountId)) g l
  | .update apiKeyId accountId, g, l =>
    if g.keys.any (·.isActiveKey apiKeyId accountId) then
      statement c g l 1
        ⟨g.keys.map (·.revoke apiKeyId accountId c.now), g.trace ++ [.revoked p accountId]⟩ l
    else statement c g l 0 g l
  | .generateApiKey, g, l => some (c.generated, g, l)
  | .insertApiKey accountId keyHash keyPrefix label, g, _ =>
    statement c g none () g (some ⟨c.apiKeyId, accountId, keyHash, keyPrefix, label, c.now, none⟩)
  | .selectByHash keyHash, g, l =>
    match (g.keys ++ l.toList).find? (·.keyHash == keyHash) with
    | none => some (.error "no rows returned", g, none)
    | some row => statement c g none row.record g l
  | .commit, g, none => statement c g none () g none
  | .commit, g, some row =>
    if g.keys.any fun other => other.apiKeyId == row.apiKeyId || other.keyHash == row.keyHash then
      some (.error "duplicate key", g, none)
    else statement c g none () { g with keys := g.keys ++ [row] } none

def system : System Call.Answer Shared Local Choice := ⟨exec⟩

/-! ## Programs -/

abbrev Program (α : Type) := Prog Call.Answer α

inductive RevokeApiKeyError where
  | lastActiveKey
  | notFound
  | database (error : String)
  deriving DecidableEq

def createApiKey (accountId : Uuid) (label : String) :
    Program (Except String (GeneratedApiKey × ApiKeyRecord)) := do
  let generated ← (Prog.call Call.generateApiKey : Program GeneratedApiKey)
  match ← (Prog.call (Call.insertApiKey accountId generated.keyHash generated.keyPrefix label) :
    Program (Except String Unit)) with
  | .error e => pure (.error e)
  | .ok _ =>
    match ← (Prog.call (Call.selectByHash generated.keyHash) : Program (Except String ApiKeyRecord)) with
    | .error e => pure (.error e)
    | .ok record =>
      match ← (Prog.call Call.commit : Program (Except String Unit)) with
      | .error e => pure (.error e)
      | .ok _ => pure (.ok (generated, record))

/-- The last statement of a revocation. -/
def updateKey (accountId apiKeyId : Uuid) : Program (Except RevokeApiKeyError Unit) := do
  match ← (Prog.call (Call.update apiKeyId accountId) : Program (Except String Nat)) with
  | .error e => pure (.error (.database e))
  | .ok updated => if updated = 0 then pure (.error .notFound) else pure (.ok ())

def revokeApiKey (accountId apiKeyId : Uuid) : Program (Except RevokeApiKeyError Unit) := do
  match ← (Prog.call (Call.countActive accountId) : Program (Except String Nat)) with
  | .error e => pure (.error (.database e))
  | .ok activeCount =>
    match ← (Prog.call (Call.ownsKey apiKeyId accountId) : Program (Except String Bool)) with
    | .error e => pure (.error (.database e))
    | .ok ownsKey =>
      if !ownsKey then pure (.error .notFound)
      else if activeCount ≤ 1 then pure (.error .lastActiveKey)
      else updateKey accountId apiKeyId

/-- The two requests about the keys of an account. -/
inductive Request where
  | create (accountId : Uuid) (label : String)
  | revoke (accountId apiKeyId : Uuid)
  deriving DecidableEq

inductive Reply where
  | created (result : Except String (GeneratedApiKey × ApiKeyRecord))
  | revoked (result : Except RevokeApiKeyError Unit)
  deriving DecidableEq

def Request.run : Request → Program Reply
  | create accountId label => Reply.created <$> createApiKey accountId label
  | revoke accountId apiKeyId => Reply.revoked <$> revokeApiKey accountId apiKeyId

/-- The keys, and the requests under way. -/
abbrev ApiKeyConfig := Config Call.Answer Shared Local Reply

/-- Any number of requests over some keys; none has begun. -/
def start (requests : Nat → Request) (keys : List ApiKeyRow) : ApiKeyConfig :=
  ⟨⟨keys, []⟩, fun p => ((requests p).run, none)⟩

/-! ## Updates -/

section Updates

variable {apiKeyId accountId other : Uuid} {now : Int} {keys : List ApiKeyRow} {row : ApiKeyRow}

/-- A revocation is of one key. -/
theorem revoke_of_ne (h : row.apiKeyId ≠ apiKeyId) : row.revoke apiKeyId accountId now = row := by
  unfold ApiKeyRow.revoke ApiKeyRow.isActiveKey
  rw [if_neg (by simp [h])]

/-- The revocation of a key that is not there changes nothing. -/
theorem map_revoke_of_not_mem (h : apiKeyId ∉ keys.map ApiKeyRow.apiKeyId) :
    keys.map (·.revoke apiKeyId accountId now) = keys := by
  refine (List.map_congr_left fun row hrow => ?_).trans (List.map_id keys)
  refine revoke_of_ne fun heq => h ?_
  rw [← heq]
  exact List.mem_map_of_mem hrow

/-- Keys of other accounts stay as they are. -/
theorem activeCount_revoke_other (h : other ≠ accountId) :
    activeCount other (keys.map (·.revoke apiKeyId accountId now)) = activeCount other keys := by
  unfold activeCount
  rw [List.countP_map]
  refine List.countP_congr fun row _ => ?_
  simp only [Function.comp_apply, ApiKeyRow.revoke]
  split_ifs with hrow
  · simp only [ApiKeyRow.isActiveKey, ApiKeyRow.isActive, Bool.and_eq_true, beq_iff_eq] at hrow
    simp [ApiKeyRow.isActive, hrow.2.1, Ne.symm h]
  · rfl

/-- **An update takes one active key away at most.** -/
theorem countP_revoke (h : (keys.map ApiKeyRow.apiKeyId).Nodup) :
    activeCount accountId keys ≤
      activeCount accountId (keys.map (·.revoke apiKeyId accountId now)) + 1 := by
  unfold activeCount
  induction keys with
  | nil => simp
  | cons row keys ih =>
    rw [List.map_cons, List.nodup_cons] at h
    by_cases hid : row.apiKeyId = apiKeyId
    · subst hid
      rw [List.map_cons, map_revoke_of_not_mem h.1, List.countP_cons, List.countP_cons]
      split_ifs <;> omega
    · have hrest := ih h.2
      rw [List.map_cons, revoke_of_ne hid, List.countP_cons, List.countP_cons]
      omega

/-- **An update of an active key takes one away.** -/
theorem countP_revoke_lt (h : keys.any (·.isActiveKey apiKeyId accountId) = true) :
    activeCount accountId (keys.map (·.revoke apiKeyId accountId now)) + 1 ≤
      activeCount accountId keys := by
  have hle : ∀ keys : List ApiKeyRow,
      activeCount accountId (keys.map (·.revoke apiKeyId accountId now)) ≤
        activeCount accountId keys := by
    intro keys
    unfold activeCount
    rw [List.countP_map]
    refine List.countP_mono_left fun row _ hrow => ?_
    simp only [Function.comp_apply, ApiKeyRow.revoke] at hrow
    split_ifs at hrow
    · simp [ApiKeyRow.isActive] at hrow
    · exact hrow
  induction keys with
  | nil => exact absurd h (by simp)
  | cons row keys ih =>
    rw [List.any_cons, Bool.or_eq_true] at h
    have hcons := hle keys
    have hone := hle [row]
    unfold activeCount at *
    rw [List.map_cons, List.countP_cons, List.countP_cons]
    simp only [List.map_cons, List.map_nil, List.countP_cons, List.countP_nil] at hone
    rcases h with hrow | hrest
    · have hactive : row.isActive accountId = true := by
        simp only [ApiKeyRow.isActiveKey, Bool.and_eq_true] at hrow
        exact hrow.2
      have hgone : (row.revoke apiKeyId accountId now).isActive accountId = false := by
        unfold ApiKeyRow.revoke
        rw [if_pos hrow]
        simp [ApiKeyRow.isActive]
      rw [hactive, hgone]
      simp only [Bool.false_eq_true, if_false, if_true]
      omega
    · have hless := ih hrest
      omega

end Updates

/-! ## What the others do -/

/-- What has happened since the call's own `COUNT`, the latest first. -/
def sinceCount (p : Nat) (trace : List Trace) : List Trace :=
  trace.reverse.takeWhile (· ≠ .counted p)

/-- The revocations of an account's keys. -/
def revocations (accountId : Uuid) (trace : List Trace) : Nat :=
  trace.countP fun e =>
    match e with
    | .counted _ => false
    | .revoked _ a => a == accountId

/-- **The update of a key is not contested**: no key of the account was revoked since the call has
counted, or there is still more than one. -/
def Uncontested (p : Nat) : Call → Shared → Prop
  | .update apiKeyId accountId, g =>
    g.keys.any (·.isActiveKey apiKeyId accountId) = true →
      revocations accountId (sinceCount p g.trace) = 0 ∨ 1 < activeCount accountId g.keys
  | _, _ => True

instance (p : Nat) (q : Call) (g : Shared) : Decidable (Uncontested p q g) := by
  cases q <;> unfold Uncontested <;> infer_instance

/-- What the others do to a call: they take away no more active keys than they revoke, and leave one
to whoever has one. -/
structure Rely (p : Nat) (g g' : Shared) : Prop where
  trace : ∃ added, g'.trace = g.trace ++ added ∧ (∀ e ∈ added, e.caller ≠ p) ∧
    ∀ a, activeCount a g.keys ≤ activeCount a g'.keys + revocations a added
  kept : ∀ a, 0 < activeCount a g.keys → 0 < activeCount a g'.keys

def discipline : Discipline Shared where
  Inv g := (g.keys.map ApiKeyRow.apiKeyId).Nodup
  Rely := Rely
  refl _ g := ⟨⟨[], by simp, by simp, fun a => by simp [revocations]⟩, fun _ h => h⟩
  trans := by
    rintro p g g' g'' ⟨⟨added, htrace, hothers, hcount⟩, hkept⟩
      ⟨⟨added', htrace', hothers', hcount'⟩, hkept'⟩
    refine ⟨⟨added ++ added', by rw [htrace', htrace, List.append_assoc], fun e he => ?_,
      fun a => ?_⟩, fun a h => hkept' a (hkept a h)⟩
    · rcases List.mem_append.mp he with he | he
      · exact hothers e he
      · exact hothers' e he
    · have h := hcount a
      have h' := hcount' a
      have hsum : revocations a (added ++ added') = revocations a added + revocations a added' :=
        List.countP_append
      omega

section Calls

variable {p : Nat} {g g' : Shared} {accountId apiKeyId : Uuid} {α : Type}

variable (p) in
abbrev Meets (Pre : Local → Shared → Prop) (prog : Program α) (Post : α → Local → Shared → Prop) :
    Prop :=
  Triple system Uncontested discipline p Pre prog Post

/-- The call has counted more than one active key, and what is left of them. -/
def Counted (p : Nat) (accountId : Uuid) (count : Nat) (g : Shared) : Prop :=
  ∃ before after, g.trace = before ++ .counted p :: after ∧ (∀ e ∈ after, e.caller ≠ p) ∧
    count ≤ activeCount accountId g.keys + revocations accountId after

/-- The keys that were counted are still there, or revoked since. -/
theorem stable_counted {count : Nat} :
    Stable discipline p fun (_ : Local) g => Counted p accountId count g := by
  rintro l g g' ⟨before, after, htrace, hothers, hcount⟩ - ⟨⟨added, htrace', hothers', hcount'⟩, -⟩ -
  refine ⟨before, after ++ added, by rw [htrace', htrace]; simp, fun e he => ?_, ?_⟩
  · rcases List.mem_append.mp he with he | he
    · exact hothers e he
    · exact hothers' e he
  · have hsum : revocations accountId (after ++ added) =
        revocations accountId after + revocations accountId added := List.countP_append
    have h := hcount' accountId
    omega

/-- Nothing is asked for. -/
theorem stable_any : Stable discipline p fun (_ : Local) _ => True := fun _ _ _ _ _ _ _ => trivial

/-- What is since the call's `COUNT`. -/
theorem sinceCount_eq {before after : List Trace} (h : ∀ e ∈ after, e.caller ≠ p) :
    sinceCount p (before ++ .counted p :: after) = after.reverse := by
  unfold sinceCount
  rw [List.reverse_append, List.reverse_cons, List.append_assoc, List.takeWhile_append_of_pos]
  · simp
  · intro e he
    refine decide_eq_true fun heq => ?_
    subst heq
    exact h _ (List.mem_reverse.mp he) rfl

/-- A step that leaves the tables alone. -/
theorem keeps_same : (discipline).Inv g → (discipline).Keeps p g g :=
  fun hi => ⟨hi, fun q _ => discipline.refl q g⟩

/-- An entry of the trace that revokes nothing. -/
theorem keeps_counted (hi : (discipline).Inv g) :
    (discipline).Keeps p g { g with trace := g.trace ++ [.counted p] } := by
  refine ⟨hi, fun q hq => ⟨⟨[.counted p], rfl, fun e he => ?_, fun a => Nat.le_add_right _ _⟩,
    fun _ h => h⟩⟩
  obtain rfl := List.mem_singleton.mp he
  exact Ne.symm hq

/-- One more key. -/
theorem keeps_created {row : ApiKeyRow} (hi : (discipline).Inv g)
    (hnew : row.apiKeyId ∉ g.keys.map ApiKeyRow.apiKeyId) :
    (discipline).Keeps p g { g with keys := g.keys ++ [row] } := by
  have hmore : ∀ a, activeCount a g.keys ≤ activeCount a (g.keys ++ [row]) := fun a => by
    unfold activeCount
    rw [List.countP_append]
    exact Nat.le_add_right _ _
  refine ⟨?_, fun q _ => ⟨⟨[], by simp, by simp, fun a => (hmore a).trans (Nat.le_add_right _ _)⟩,
    fun a h => h.trans_le (hmore a)⟩⟩
  change ((g.keys ++ [row]).map ApiKeyRow.apiKeyId).Nodup
  rw [List.map_append, List.nodup_append]
  refine ⟨hi, by simp, fun x hx y hy heq => ?_⟩
  rw [List.map_singleton, List.mem_singleton] at hy
  rw [heq, hy] at hx
  exact hnew hx

/-- **An update that leaves the account a key.** -/
theorem keeps_updated {now : Int} (hi : (discipline).Inv g)
    (htwo : 1 < activeCount accountId g.keys) :
    (discipline).Keeps p g
      ⟨g.keys.map (·.revoke apiKeyId accountId now), g.trace ++ [.revoked p accountId]⟩ := by
  have hone := @countP_revoke apiKeyId accountId now g.keys hi
  refine ⟨?_, fun q hq => ⟨⟨[.revoked p accountId], rfl, fun e he => ?_, fun a => ?_⟩,
    fun a h => ?_⟩⟩
  · change ((g.keys.map (·.revoke apiKeyId accountId now)).map ApiKeyRow.apiKeyId).Nodup
    rw [List.map_map]
    exact (List.map_congr_left (g := ApiKeyRow.apiKeyId) fun row _ => ApiKeyRow.revoke_apiKeyId) ▸ hi
  · obtain rfl := List.mem_singleton.mp he
    exact Ne.symm hq
  · by_cases ha : a = accountId
    · subst ha
      have hrev : revocations a [.revoked p a] = 1 := by simp [revocations]
      change activeCount a g.keys ≤ activeCount a (g.keys.map (·.revoke apiKeyId a now)) + _
      omega
    · change _ ≤ activeCount a (g.keys.map (·.revoke apiKeyId accountId now)) + _
      rw [activeCount_revoke_other ha]
      exact Nat.le_add_right _ _
  · change 0 < activeCount a (g.keys.map (·.revoke apiKeyId accountId now))
    by_cases ha : a = accountId
    · subst ha
      omega
    · rwa [activeCount_revoke_other ha]

/-! ## The calls -/

/-- A statement fails and changes nothing, or it does what it says. -/
theorem statement_shared {c : Choice} {l l' l'' : Local} {f : Shared} {a : α} {r : Except String α}
    (h : statement c g l a f l' = some (r, g', l'')) : g' = g ∨ g' = f ∧ r = .ok a := by
  unfold statement at h
  split_ifs at h
  · obtain ⟨-, rfl, -⟩ := h
    exact Or.inl rfl
  · obtain ⟨rfl, rfl, -⟩ := h
    exact Or.inr ⟨rfl, rfl⟩

/-- A statement that does not touch the tables. -/
theorem triple_read {q : Call} {P : Shared → Prop} (hP : Stable discipline p fun (_ : Local) g => P g)
    (hexec : ∀ c g l r g' l', exec p c q g l = some (r, g', l') → g' = g) :
    Meets p (fun _ g => P g) (Prog.call q) fun _ _ g => P g := by
  refine triple_call hP (fun _ => hP) fun l g c r g' l' h hi _ he => ?_
  obtain rfl := hexec c g l r g' l' he
  exact ⟨keeps_same hi, h⟩

/-- **The active keys are counted.** -/
theorem triple_countActive : Meets p (fun _ _ => True) (Prog.call (Call.countActive accountId))
    fun (r : Except String Nat) _ g => ∀ n, r = .ok n → Counted p accountId n g := by
  refine triple_call stable_any (fun r => ?_) fun l g c r g' l' _ hi _ he => ?_
  · exact fun l g g' h hi hr hi' n hn => stable_counted l g g' (h n hn) hi hr hi'
  · obtain rfl | ⟨rfl, rfl⟩ := statement_shared he
    · have hfail : ∀ n, r ≠ .ok n := by
        rintro n rfl
        change statement c g' l (activeCount accountId g'.keys)
          { g' with trace := g'.trace ++ [.counted p] } l = _ at he
        unfold statement at he
        split_ifs at he
        · exact absurd (congrArg (fun x => x.1) (Option.some.inj he)) (by simp)
        · have htrace := congrArg (fun x => x.2.1.trace.length) (Option.some.inj he)
          simp at htrace
      exact ⟨keeps_same hi, fun n hn => absurd hn (hfail n)⟩
    · refine ⟨keeps_counted hi, fun n hn => ⟨g.trace, [], rfl, by simp, ?_⟩⟩
      rw [← Except.ok.inj hn]
      exact Nat.le_add_right _ _

/-- **The update of a call that has counted enough.** -/
theorem triple_update {count : Nat} (hcount : 1 < count) :
    Meets p (fun _ g => Counted p accountId count g) (Prog.call (Call.update apiKeyId accountId))
      fun _ _ _ => True := by
  refine triple_call stable_counted (fun _ => stable_any) fun l g c r g' l' h hi hok he => ?_
  refine ⟨?_, trivial⟩
  have he' : (if g.keys.any (·.isActiveKey apiKeyId accountId) then
      statement c g l 1
        ⟨g.keys.map (·.revoke apiKeyId accountId c.now), g.trace ++ [.revoked p accountId]⟩ l
    else statement c g l 0 g l) = some (r, g', l') := he
  split_ifs at he' with hactive
  · obtain rfl | ⟨rfl, -⟩ := statement_shared he'
    · exact keeps_same hi
    · refine keeps_updated hi ?_
      obtain ⟨before, after, htrace, hothers, hle⟩ := h
      rcases hok hactive with hnone | hmany
      · rw [htrace, sinceCount_eq hothers] at hnone
        have hsame : revocations accountId after.reverse = revocations accountId after :=
          List.countP_reverse
        omega
      · exact hmany
  · obtain rfl | ⟨rfl, -⟩ := statement_shared he'
    · exact keeps_same hi
    · exact keeps_same hi

/-- **The new key is inserted** by the commit, unless its id or its hash is taken. -/
theorem triple_commit :
    Meets p (fun _ _ => True) (Prog.call Call.commit) fun _ _ _ => True := by
  refine triple_call stable_any (fun _ => stable_any) fun l g c r g' l' _ hi _ he => ⟨?_, trivial⟩
  cases l with
  | none =>
    obtain rfl | ⟨rfl, -⟩ := statement_shared he
    · exact keeps_same hi
    · exact keeps_same hi
  | some row =>
    have he' : (if g.keys.any fun other =>
        other.apiKeyId == row.apiKeyId || other.keyHash == row.keyHash then
        some ((.error "duplicate key" : Except String Unit), g, (none : Local))
      else statement c g none () { g with keys := g.keys ++ [row] } none) = some (r, g', l') := he
    split_ifs at he' with htaken
    · obtain ⟨-, rfl, -⟩ := he'
      exact keeps_same hi
    · obtain rfl | ⟨rfl, -⟩ := statement_shared he'
      · exact keeps_same hi
      · refine keeps_created hi fun hmem => htaken ?_
        obtain ⟨other, hother, hid⟩ := List.mem_map.mp hmem
        exact List.any_eq_true.mpr ⟨other, hother, by simp [hid]⟩

/-- `create_api_key` only adds keys. -/
theorem triple_createApiKey {label : String} :
    Meets p (fun _ _ => True) (createApiKey accountId label) fun _ _ _ => True := by
  have hdone : ∀ a : Except String (GeneratedApiKey × ApiKeyRecord),
      Meets p (fun _ _ => True) (.ret a) fun _ _ _ => True :=
    fun a => triple_ret stable_any fun _ _ _ _ => trivial
  unfold createApiKey
  refine triple_bind (triple_read (P := fun _ => True) stable_any fun c g l r g' l' he => ?_)
    fun generated => ?_
  · obtain ⟨-, rfl, -⟩ := he
    rfl
  refine triple_bind (triple_read (P := fun _ => True) stable_any fun c g l r g' l' he => ?_)
    fun inserted => ?_
  · exact (statement_shared he).elim id And.left
  cases inserted with
  | error e => exact hdone _
  | ok _ =>
    refine triple_bind (triple_read (P := fun _ => True) stable_any fun c g l r g' l' he => ?_)
      fun selected => ?_
    · have he' : (match (g.keys ++ l.toList).find? (·.keyHash == generated.keyHash) with
        | none => some ((.error "no rows returned" : Except String ApiKeyRecord), g, (none : Local))
        | some row => statement c g none row.record g l) = some (r, g', l') := he
      split at he'
      · obtain ⟨-, rfl, -⟩ := he'
        rfl
      · exact (statement_shared he').elim id And.left
    cases selected with
    | error e => exact hdone _
    | ok record =>
      refine triple_bind triple_commit fun committed => ?_
      cases committed with
      | error e => exact hdone _
      | ok _ => exact hdone _

/-- **`revoke_api_key`** updates a key where the count was above one. -/
theorem triple_revokeApiKey :
    Meets p (fun _ _ => True) (revokeApiKey accountId apiKeyId) fun _ _ _ => True := by
  have hdone : ∀ (P : Shared → Prop) (a : Except RevokeApiKeyError Unit),
      Stable discipline p (fun (_ : Local) g => P g) →
        Meets p (fun _ g => P g) (.ret a) fun _ _ _ => True :=
    fun P a hP => triple_ret hP fun _ _ _ _ => trivial
  unfold revokeApiKey
  refine triple_bind triple_countActive fun counted => ?_
  cases counted with
  | error e => exact triple_pre (fun _ _ _ _ => trivial) (hdone (fun _ => True) _ stable_any)
  | ok count =>
    refine triple_pre (P := fun _ g => Counted p accountId count g) (fun l g h _ => h count rfl) ?_
    refine triple_bind (triple_read stable_counted fun c g l r g' l' he => ?_) fun owned => ?_
    · exact (statement_shared he).elim id And.left
    cases owned with
    | error e => exact hdone _ _ stable_counted
    | ok owns =>
      change Meets p _ (if !owns then .ret (.error .notFound)
        else if count ≤ 1 then .ret (.error .lastActiveKey) else updateKey accountId apiKeyId) _
      split_ifs with howns hlast
      · exact hdone _ _ stable_counted
      · exact hdone _ _ stable_counted
      · unfold updateKey
        refine triple_bind (triple_update (not_le.mp hlast)) fun updated => ?_
        cases updated with
        | error e => exact hdone (fun _ => True) _ stable_any
        | ok n =>
          change Meets p _ (if n = 0 then .ret (Except.error RevokeApiKeyError.notFound)
            else .ret (Except.ok ())) _
          split_ifs
          · exact hdone (fun _ => True) _ stable_any
          · exact hdone (fun _ => True) _ stable_any

/-- **Every request.** -/
theorem triple_run (request : Request) :
    Meets p (fun _ _ => True) request.run fun _ _ _ => True := by
  cases request with
  | create accountId label =>
    exact triple_bind triple_createApiKey fun r => triple_ret stable_any fun _ _ _ _ => trivial
  | revoke accountId apiKeyId =>
    exact triple_bind triple_revokeApiKey fun r => triple_ret stable_any fun _ _ _ _ => trivial

end Calls

/-! ## The last key -/

/-- **An account never locks itself out** in runs without a contested update, and a contested update
locks it out. -/
theorem never_locked_out_iff (requests : Nat → Request) (keys : List ApiKeyRow)
    (hkeys : (keys.map ApiKeyRow.apiKeyId).Nodup) (y : ApiKeyConfig)
    (hy : Reach system Uncontested (start requests keys) y) :
    (∀ z accountId, Reach system Uncontested y z → 0 < activeCount accountId y.shared.keys →
      0 < activeCount accountId z.shared.keys) ∧
    ∀ p c apiKeyId accountId g l l', ¬ Uncontested p (.update apiKeyId accountId) y.shared →
      system.exec p c (.update apiKeyId accountId) y.shared l = some (.ok 1, g, l') →
        activeCount accountId g.keys = 0 := by
  have hsafe : ∀ p, Safe system Uncontested discipline p (fun (_ : Reply) _ _ => True)
      ((start requests keys).procs p).1 ((start requests keys).procs p).2
      (start requests keys).shared := fun p => triple_run (requests p) _ _ trivial hkeys
  obtain ⟨hinv, hsafe'⟩ := reach_safe hkeys hsafe hy
  constructor
  · intro z accountId hz
    exact reach_relation (fun g g' : Shared => 0 < activeCount accountId g.keys →
      0 < activeCount accountId g'.keys) (fun _ h => h) (fun _ _ _ h h' ha => h' (h ha))
      (fun p g g' (hr : Rely p g g') => hr.kept accountId) hinv hsafe' hz
  · intro p c apiKeyId accountId g l l' hcontested he
    have he' : (if y.shared.keys.any (·.isActiveKey apiKeyId accountId) then
        statement c y.shared l 1 ⟨y.shared.keys.map (·.revoke apiKeyId accountId c.now),
          y.shared.trace ++ [.revoked p accountId]⟩ l
      else statement c y.shared l 0 y.shared l) = some (.ok 1, g, l') := he
    unfold Uncontested at hcontested
    rw [Classical.not_imp, not_or, not_lt] at hcontested
    obtain ⟨hactive, -, hone⟩ := hcontested
    rw [if_pos hactive] at he'
    unfold statement at he'
    split_ifs at he'
    · exact absurd (congrArg (fun x => x.1) (Option.some.inj he')) (by simp)
    · obtain ⟨-, rfl, -⟩ := he'
      have hless := @countP_revoke_lt apiKeyId accountId c.now _ hactive
      change activeCount accountId (y.shared.keys.map (·.revoke apiKeyId accountId c.now)) = 0
      omega

/-- Two keys, and a request for each. -/
def sampleKeys : List ApiKeyRow :=
  [⟨Uuid.small 3, Uuid.small 1, "hash 1", "ev_11111…", "default", 0, none⟩,
    ⟨Uuid.small 4, Uuid.small 1, "hash 2", "ev_22222…", "laptop", 0, none⟩]

def sampleRequests (p : Nat) : Request :=
  .revoke (Uuid.small 1) (if p = 0 then Uuid.small 3 else Uuid.small 4)

def sampleSteps (calls : List Nat) : List (Nat × Choice) :=
  calls.map fun p => (p, ⟨false, 0, Uuid.small 9, ⟨"", "", ""⟩⟩)

/-- One after the other: the second is refused, as the last key is left. -/
theorem never_locked_out_iff_sampleRun : ∃ y z : ApiKeyConfig,
    activeCount (Uuid.small 1) y.shared.keys = 1 ∧ 0 < activeCount (Uuid.small 1) z.shared.keys ∧
      (z.procs 1).1.result = some (.revoked (.error .lastActiveKey)) := by
  have hrun : ((start sampleRequests sampleKeys).run system Uncontested
      (sampleSteps [0, 0, 0])).bind (fun y => (y.run system Uncontested (sampleSteps [1, 1])).map
        fun z => (activeCount (Uuid.small 1) y.shared.keys, (z.procs 1).1.result)) =
      some (1, some (.revoked (.error .lastActiveKey))) := by
    decide +kernel
  obtain ⟨y, z, hy, hz, hfacts, -⟩ := Reach.exists_of_runs hrun
  obtain ⟨hone, hrefused⟩ := Prod.mk.inj hfacts
  have hkept := (never_locked_out_iff sampleRequests sampleKeys (by decide) y hy).1 z (Uuid.small 1) hz
  exact ⟨y, z, hone, hkept (by rw [hone]; decide), hrefused⟩

/-- **Both count two keys, and both update.** -/
theorem locked_out : ∃ y : ApiKeyConfig,
    Reach system (fun _ _ _ => True) (start sampleRequests sampleKeys) y ∧
      0 < activeCount (Uuid.small 1) sampleKeys ∧
        ¬ 0 < activeCount (Uuid.small 1) y.shared.keys := by
  have hrun : ((start sampleRequests sampleKeys).run system (fun _ _ _ => True)
      (sampleSteps [0, 1, 0, 1, 0, 1])).map
        (fun y => activeCount (Uuid.small 1) y.shared.keys) = some 0 := by decide +kernel
  obtain ⟨y, hy, hnone⟩ := Reach.exists_of_run hrun
  exact ⟨y, hy, by decide, by rw [hnone]; decide⟩

end EvidentLedger.ApiKeys
