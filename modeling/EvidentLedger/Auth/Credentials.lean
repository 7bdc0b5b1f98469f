import EvidentLedger.ApiKeys
import EvidentLedger.Binding
import EvidentLedger.Paddle.Signature

/-!
# Session cookies, API keys and desktop tokens

The texts a client authenticates with, and what is looked up for them: `src/auth/session_store.rs`,
`src/auth/api_key.rs`, `src/auth/desktop_token.rs` and the header of `resolve_desktop_bearer`
(`src/auth/mod.rs:71-102`). Random bytes are arguments.

* A lookup takes the SHA-256 of a text: of the secret after `ev_` or `desktop_` where that is 32
  hexadecimal digits, else of the whole API key.
* A browser keeps the pair of a `Set-Cookie` before its first semicolon (`cookiePair`) and sends its
  pairs back in one header (`cookieHeader`).

## Results

* **`parseSessionCookie_cookieHeader`**: a session cookie is found among any others, and a cleared one is
  passed over.
* **`lookup_generated_iff`**: a generated API key is found by itself and by its bare secret, and by no
  other text.
* `isLegacyLookupKey_iff`: the predicate on legacy keys is the branch that the lookup takes.
-/

namespace EvidentLedger.Auth

open Lib.Text
open EvidentLedger.Paddle (stripPrefix stripPrefix_append plainPart plainPart_hexEncode)

variable (sha : Sha256)

/-! ## Cookies -/

def SESSION_COOKIE_NAME : String := "evident_session"

def SESSION_TTL_DAYS : Int := 30

/-- `generate_session_token`. -/
def generateSessionToken (bytes : Bytes 32) : String := hexEncode bytes.1

/-- `hash_session_token`. -/
def hashSessionToken (token : String) : String := sha256Hex sha (asBytes token)

/-- `session_cookie_value`. -/
def sessionCookieValue (token : String) (secure : Bool) : String :=
  SESSION_COOKIE_NAME ++ "=" ++ token ++ "; HttpOnly; Path=/; Max-Age=" ++
    toString (SESSION_TTL_DAYS * 24 * 60 * 60) ++ "; SameSite=Lax" ++ if secure then "; Secure" else ""

/-- `clear_session_cookie`. -/
def clearSessionCookie (secure : Bool) : String :=
  SESSION_COOKIE_NAME ++ "=; HttpOnly; Path=/; Max-Age=0; SameSite=Lax" ++
    if secure then "; Secure" else ""

/-- The token in one part of a header. -/
def sessionPart (part : String) : Option String :=
  (stripPrefix (SESSION_COOKIE_NAME ++ "=") (trim part)).filter (· ≠ "")

/-- `parse_session_cookie`. -/
def parseSessionCookie (cookieHeader : String) : Option String :=
  ((cookieHeader.toList.splitOn ';').map String.ofList).findSome? sessionPart

/-- What a browser keeps of a `Set-Cookie`. -/
def cookiePair (setCookie : String) : String :=
  String.ofList (setCookie.toList.takeWhile (· ≠ ';'))

/-- What a browser sends back. -/
def cookieHeader (pairs : List String) : String :=
  String.ofList (List.intercalate "; ".toList (pairs.map String.toList))

section Cookies

theorem sessionPart_space (part : String) : sessionPart (" " ++ part) = sessionPart part := by
  have htrim : trim (" " ++ part) = trim part := by
    rw [trim, String.toList_append]
    rfl
  rw [sessionPart, htrim, sessionPart]

/-- **The parts of a header are its pairs.** -/
theorem parseSessionCookie_eq {pairs : List String} (hsep : ∀ part ∈ pairs, ';' ∉ part.toList) :
    parseSessionCookie (cookieHeader pairs) = pairs.findSome? sessionPart := by
  cases pairs with
  | nil => rfl
  | cons part rest =>
    induction rest generalizing part with
    | nil =>
      have htext : (cookieHeader [part]).toList = part.toList := by
        simp [cookieHeader, List.intercalate]
      rw [parseSessionCookie, htext, List.splitOn_eq_singleton (hsep part List.mem_cons_self)]
      simp
    | cons next rest ih =>
      have htext : (cookieHeader (part :: next :: rest)).toList =
          part.toList ++ ';' :: (cookieHeader ((" " ++ next) :: rest)).toList := by
        cases rest <;> simp [cookieHeader, List.intercalate]
      have hrest := ih (" " ++ next) fun p hp => by
        rcases List.mem_cons.mp hp with rfl | hp
        · have hnext := hsep next (by simp)
          simpa [String.toList_append] using hnext
        · exact hsep p (by simp [hp])
      rw [parseSessionCookie] at hrest
      rw [parseSessionCookie, htext,
        List.splitOn_append_cons_self_of_not_mem (hsep part List.mem_cons_self), List.map_cons,
        List.findSome?_cons, hrest, String.ofList_toList, List.findSome?_cons, sessionPart_space,
        List.findSome?_cons, List.findSome?_cons]

/-- The pair that is kept of a new session. -/
theorem cookiePair_session (bytes : Bytes 32) (secure : Bool) :
    cookiePair (sessionCookieValue (generateSessionToken bytes) secure) =
      SESSION_COOKIE_NAME ++ "=" ++ generateSessionToken bytes := by
  have hplain : ∀ c ∈ (SESSION_COOKIE_NAME ++ "=" ++ generateSessionToken bytes).toList,
      decide (c ≠ ';') = true := by
    intro c hc
    rw [String.toList_append] at hc
    rcases List.mem_append.mp hc with hc | hc
    · have hname : (SESSION_COOKIE_NAME ++ "=").toList.all (fun c => decide (c ≠ ';')) = true := by
        decide
      exact List.all_eq_true.mp hname c hc
    · have hhex := plainPart_hexEncode hc
      unfold plainPart at hhex
      grind
  have hattributes : ∀ name rest : String, ∃ tail,
      (name ++ "; HttpOnly; Path=/; Max-Age=" ++ rest).toList = name.toList ++ ';' :: tail := by
    intro name rest
    refine ⟨" HttpOnly; Path=/; Max-Age=".toList ++ rest.toList, ?_⟩
    rw [String.toList_append, String.toList_append, List.append_assoc]
    rfl
  obtain ⟨rest, htext⟩ := hattributes (SESSION_COOKIE_NAME ++ "=" ++ generateSessionToken bytes)
    (toString (SESSION_TTL_DAYS * 24 * 60 * 60) ++ ("; SameSite=Lax" ++
      if secure then "; Secure" else ""))
  rw [← String.append_assoc, ← String.append_assoc] at htext
  change (sessionCookieValue (generateSessionToken bytes) secure).toList = _ at htext
  rw [cookiePair, htext, List.takeWhile_append_of_pos hplain, List.takeWhile_cons_of_neg (by simp),
    List.append_nil, String.ofList_toList]

theorem sessionPart_token (bytes : Bytes 32) :
    sessionPart (SESSION_COOKIE_NAME ++ "=" ++ generateSessionToken bytes) =
      some (generateSessionToken bytes) := by
  have hne : generateSessionToken bytes ≠ "" := by
    intro h
    have hlen := length_asBytes_hexEncode bytes.1
    rw [← generateSessionToken, h, bytes.2] at hlen
    exact absurd hlen (by decide)
  have hblank : trim (SESSION_COOKIE_NAME ++ "=" ++ generateSessionToken bytes) =
      SESSION_COOKIE_NAME ++ "=" ++ generateSessionToken bytes := by
    refine trim_of_not_blank fun c hc => ?_
    rw [String.toList_append] at hc
    rcases List.mem_append.mp hc with hc | hc
    · have hname : (SESSION_COOKIE_NAME ++ "=").toList.all (fun c => !isBlank c) = true := by decide
      simpa using List.all_eq_true.mp hname c hc
    · have hhex := plainPart_hexEncode hc
      unfold plainPart at hhex
      grind
  rw [sessionPart, hblank, stripPrefix_append]
  simp [hne]

/-- A cleared session is none. -/
theorem sessionPart_cleared (secure : Bool) :
    sessionPart (cookiePair (clearSessionCookie secure)) = none := by
  cases secure <;> decide

/-- **A session cookie is found** among any others, and where the last one was cleared there is none. -/
theorem parseSessionCookie_cookieHeader (before after : List String)
    (hsep : ∀ part ∈ before ++ after, ';' ∉ part.toList)
    (hother : ∀ part ∈ before, sessionPart part = none) (bytes : Bytes 32) (secure : Bool) :
    parseSessionCookie (cookieHeader (before ++
        cookiePair (sessionCookieValue (generateSessionToken bytes) secure) :: after)) =
      some (generateSessionToken bytes) ∧
    parseSessionCookie (cookieHeader (before ++ cookiePair (clearSessionCookie secure) :: after)) =
      parseSessionCookie (cookieHeader (before ++ after)) := by
  have hpair : ∀ setCookie : String, ';' ∉ (cookiePair setCookie).toList := by
    intro setCookie hmem
    rw [cookiePair, String.toList_ofList] at hmem
    exact absurd (List.mem_takeWhile_imp hmem) (by simp)
  have hall : ∀ setCookie : String, ∀ part ∈ before ++ cookiePair setCookie :: after,
      ';' ∉ part.toList := by
    intro setCookie part hmem
    rcases List.mem_append.mp hmem with hmem | hmem
    · exact hsep part (List.mem_append_left _ hmem)
    · rcases List.mem_cons.mp hmem with rfl | hmem
      · exact hpair setCookie
      · exact hsep part (List.mem_append_right _ hmem)
  have hnone : before.findSome? sessionPart = none := List.findSome?_eq_none_iff.mpr hother
  rw [parseSessionCookie_eq (hall _), parseSessionCookie_eq (hall _), parseSessionCookie_eq hsep,
    List.findSome?_append, List.findSome?_append, List.findSome?_append, hnone, Option.none_or,
    Option.none_or, Option.none_or, List.findSome?_cons, List.findSome?_cons, cookiePair_session,
    sessionPart_token, sessionPart_cleared]
  exact ⟨rfl, rfl⟩

/-- Between two other cookies. -/
theorem parseSessionCookie_cookieHeader_others :
    parseSessionCookie (cookieHeader (["theme=dark"] ++ cookiePair (sessionCookieValue
        (generateSessionToken ⟨List.replicate 32 7, rfl⟩) true) :: ["lang=en"])) =
      some (generateSessionToken ⟨List.replicate 32 7, rfl⟩) ∧
    parseSessionCookie (cookieHeader (["theme=dark"] ++
        cookiePair (clearSessionCookie true) :: ["lang=en"])) = none := by
  obtain ⟨hfound, hcleared⟩ := parseSessionCookie_cookieHeader ["theme=dark"] ["lang=en"]
    (by decide) (by decide +kernel) ⟨List.replicate 32 7, rfl⟩ true
  exact ⟨hfound, hcleared.trans (by decide +kernel)⟩

end Cookies

/-! ## API keys -/

def API_KEY_PREFIX : String := "ev_"

def SECRET_HEX_LEN : Nat := 32

def KEY_PREFIX_DISPLAY_LEN : Nat := 8

/-- `is_ascii_hexdigit`. -/
def isAsciiHexdigit (c : Char) : Bool := (hexVal c).isSome

/-- A secret of 32 hexadecimal digits. -/
def isSecretHex (secret : String) : Bool :=
  (asBytes secret).length == SECRET_HEX_LEN && secret.toList.all isAsciiHexdigit

/-- `hash_secret_hex`. -/
def hashSecretHex (secret : String) : String := sha256Hex sha (asBytes secret)

/-- `display_prefix`. -/
def displayPrefix (fullKey : String) : String :=
  String.ofList (fullKey.toList.take KEY_PREFIX_DISPLAY_LEN) ++ "…"

/-- `build_from_secret`. -/
def buildFromSecret (secret : String) : ApiKeys.GeneratedApiKey where
  fullKey := API_KEY_PREFIX ++ secret
  keyHash := hashSecretHex sha secret
  keyPrefix := displayPrefix (API_KEY_PREFIX ++ secret)

/-- `generate_api_key`. -/
def generateApiKey (bytes : Bytes 16) : ApiKeys.GeneratedApiKey :=
  buildFromSecret sha (hexEncode bytes.1)

/-- `hash_api_key_for_lookup`. -/
def hashApiKeyForLookup (rawKey : String) : String :=
  match stripPrefix API_KEY_PREFIX rawKey with
  | some secret =>
    if isSecretHex secret then hashSecretHex sha secret else sha256Hex sha (asBytes rawKey)
  | none => sha256Hex sha (asBytes rawKey)

/-- `is_legacy_lookup_key`. -/
def isLegacyLookupKey (rawKey : String) : Bool :=
  !(API_KEY_PREFIX.toList.isPrefixOf rawKey.toList &&
    (asBytes rawKey).length == (asBytes API_KEY_PREFIX).length + SECRET_HEX_LEN &&
    (rawKey.toList.drop API_KEY_PREFIX.length).all isAsciiHexdigit)

/-! ## Desktop tokens -/

def DESKTOP_TOKEN_PREFIX : String := "desktop_"

/-- `GeneratedDesktopToken`. -/
structure GeneratedDesktopToken where
  plaintext : String
  tokenHash : String
  deriving DecidableEq

/-- `generate_desktop_token`. -/
def generateDesktopToken (bytes : Bytes 16) : GeneratedDesktopToken where
  plaintext := DESKTOP_TOKEN_PREFIX ++ hexEncode bytes.1
  tokenHash := hashSecretHex sha (hexEncode bytes.1)

/-- `hash_desktop_token_for_lookup`. -/
def hashDesktopTokenForLookup (raw : String) : Option String :=
  (stripPrefix DESKTOP_TOKEN_PREFIX raw).bind fun secret =>
    if isSecretHex secret then some (hashSecretHex sha secret) else none

/-- The token of an `Authorization` header, as `resolve_desktop_bearer` reads it. -/
def bearerToken (value : String) : Option String :=
  (((stripPrefix "Bearer " value).or (stripPrefix "bearer " value)).map trim).filter (· ≠ "")

/-! ## What is looked up -/

section Lookup

variable {sha}

/-- The text whose hash is looked up for an API key. -/
def apiKeySecret (rawKey : String) : String :=
  match stripPrefix API_KEY_PREFIX rawKey with
  | some secret => if isSecretHex secret then secret else rawKey
  | none => rawKey

theorem apiKeySecret_of_strip {rawKey secret : String}
    (h : stripPrefix API_KEY_PREFIX rawKey = some secret) :
    apiKeySecret rawKey = if isSecretHex secret then secret else rawKey := by
  unfold apiKeySecret
  rw [h]

theorem apiKeySecret_of_none {rawKey : String} (h : stripPrefix API_KEY_PREFIX rawKey = none) :
    apiKeySecret rawKey = rawKey := by
  unfold apiKeySecret
  rw [h]

theorem hashApiKeyForLookup_eq (rawKey : String) :
    hashApiKeyForLookup sha rawKey = sha256Hex sha (asBytes (apiKeySecret rawKey)) := by
  unfold hashApiKeyForLookup apiKeySecret
  cases stripPrefix API_KEY_PREFIX rawKey with
  | none => rfl
  | some secret => by_cases h : isSecretHex secret <;> simp [h, hashSecretHex]

theorem eq_append_of_stripPrefix {start text rest : String} (h : stripPrefix start text = some rest) :
    text = start ++ rest := by
  unfold stripPrefix at h
  split_ifs at h with hp
  obtain ⟨t, ht⟩ := List.isPrefixOf_iff_prefix.mp hp
  rw [← Option.some.inj h, ← ht, List.drop_left]
  apply String.toList_inj.mp
  rw [String.toList_append, String.toList_ofList, ht]

/-- The digits of 16 bytes are a secret. -/
theorem isSecretHex_hexEncode (bytes : Bytes 16) : isSecretHex (hexEncode bytes.1) = true := by
  unfold isSecretHex
  rw [length_asBytes_hexEncode, bytes.2, Bool.and_eq_true, List.all_eq_true]
  refine ⟨rfl, fun c hc => ?_⟩
  rw [hexEncode, String.toList_ofList] at hc
  obtain ⟨n, hn, rfl⟩ := mem_hexChars hc
  rw [isAsciiHexdigit, (hexDigit_spec n hn).1]
  rfl

/-- Digits do not begin with `ev_`. -/
theorem stripPrefix_hexEncode (bytes : List UInt8) :
    stripPrefix API_KEY_PREFIX (hexEncode bytes) = none := by
  cases h : stripPrefix API_KEY_PREFIX (hexEncode bytes) with
  | none => rfl
  | some rest =>
    have hmem : 'v' ∈ (hexEncode bytes).toList := by
      rw [eq_append_of_stripPrefix h, String.toList_append]
      exact List.mem_append_left _ (by decide)
    rw [hexEncode, String.toList_ofList] at hmem
    obtain ⟨n, hn, hv⟩ := mem_hexChars hmem
    have hno : ∀ n < 16, hexDigit n ≠ 'v' := by decide
    exact absurd hv.symm (hno n hn)

/-- **The texts of one secret**: the key, and the secret itself. -/
theorem apiKeySecret_iff (rawKey : String) (bytes : Bytes 16) :
    apiKeySecret rawKey = hexEncode bytes.1 ↔
      rawKey = API_KEY_PREFIX ++ hexEncode bytes.1 ∨ rawKey = hexEncode bytes.1 := by
  constructor
  · intro h
    cases hstrip : stripPrefix API_KEY_PREFIX rawKey with
    | none => exact Or.inr ((apiKeySecret_of_none hstrip).symm.trans h)
    | some secret =>
      rw [apiKeySecret_of_strip hstrip] at h
      split_ifs at h with hsecret
      · exact Or.inl (by rw [eq_append_of_stripPrefix hstrip, h])
      · exact Or.inr h
  · rintro (rfl | rfl)
    · rw [apiKeySecret_of_strip (stripPrefix_append _ _), if_pos (isSecretHex_hexEncode bytes)]
    · exact apiKeySecret_of_none (stripPrefix_hexEncode bytes.1)

/-- Equal hashes are of equal texts, or the texts collide. -/
theorem eq_of_sha256Hex {a b : String} (h : sha256Hex sha (asBytes a) = sha256Hex sha (asBytes b)) :
    a = b ∨ Collision sha [asBytes a, asBytes b] := by
  by_cases hab : a = b
  · exact Or.inl hab
  · refine Or.inr ⟨asBytes a, by simp, asBytes b, by simp, fun heq => hab (asBytes_inj heq), ?_⟩
    exact Subtype.ext (hexEncode_inj h)

/-- **What finds a generated credential.** An API key is found by itself and by its bare secret, a
desktop token by itself, and neither by any other text, unless that collides with the secret. -/
theorem lookup_generated_iff (bytes : Bytes 16) (raw : String) :
    (hashApiKeyForLookup sha raw = (generateApiKey sha bytes).keyHash →
        raw = (generateApiKey sha bytes).fullKey ∨ raw = hexEncode bytes.1 ∨
          Collision sha [asBytes (apiKeySecret raw), asBytes (hexEncode bytes.1)]) ∧
      (raw = (generateApiKey sha bytes).fullKey ∨ raw = hexEncode bytes.1 →
        hashApiKeyForLookup sha raw = (generateApiKey sha bytes).keyHash) ∧
      (hashDesktopTokenForLookup sha raw = some (generateDesktopToken sha bytes).tokenHash →
        raw = (generateDesktopToken sha bytes).plaintext ∨
          ∃ secret, raw = DESKTOP_TOKEN_PREFIX ++ secret ∧ isSecretHex secret = true ∧
            Collision sha [asBytes secret, asBytes (hexEncode bytes.1)]) ∧
      hashDesktopTokenForLookup sha (generateDesktopToken sha bytes).plaintext =
        some (generateDesktopToken sha bytes).tokenHash := by
  refine ⟨fun h => ?_, fun h => ?_, fun h => ?_, ?_⟩
  · rw [hashApiKeyForLookup_eq] at h
    rcases eq_of_sha256Hex h with heq | hcollision
    · exact ((apiKeySecret_iff raw bytes).mp heq).imp_right Or.inl
    · exact Or.inr (Or.inr hcollision)
  · rw [hashApiKeyForLookup_eq, (apiKeySecret_iff raw bytes).mpr h]
    rfl
  · obtain ⟨secret, hstrip, hsome⟩ := Option.bind_eq_some_iff.mp h
    have hraw := eq_append_of_stripPrefix hstrip
    split_ifs at hsome with hsecret
    rcases eq_of_sha256Hex (Option.some.inj hsome) with rfl | hcollision
    · exact Or.inl hraw
    · exact Or.inr ⟨secret, hraw, hsecret, hcollision⟩
  · rw [hashDesktopTokenForLookup, generateDesktopToken, stripPrefix_append, Option.bind_some,
      if_pos (isSecretHex_hexEncode bytes)]

/-- **The legacy keys are those that are hashed whole.** -/
theorem isLegacyLookupKey_iff (rawKey : String) :
    isLegacyLookupKey rawKey = true ↔ apiKeySecret rawKey = rawKey := by
  cases hstrip : stripPrefix API_KEY_PREFIX rawKey with
  | none =>
    rw [apiKeySecret_of_none hstrip]
    refine iff_of_true ?_ rfl
    have hprefix : API_KEY_PREFIX.toList.isPrefixOf rawKey.toList = false := by
      unfold stripPrefix at hstrip
      split_ifs at hstrip with hp
      exact Bool.eq_false_iff.mpr hp
    simp [isLegacyLookupKey, hprefix]
  | some secret =>
    have htext := eq_append_of_stripPrefix hstrip
    have hlegacy : isLegacyLookupKey rawKey = !isSecretHex secret := by
      have hlen : ((asBytes rawKey).length == (asBytes API_KEY_PREFIX).length + SECRET_HEX_LEN) =
          ((asBytes secret).length == SECRET_HEX_LEN) := by
        rw [htext, asBytes_append, List.length_append]
        by_cases h : (asBytes secret).length = SECRET_HEX_LEN
        · simp [h]
        · simp [h]
      have hdrop : rawKey.toList.drop API_KEY_PREFIX.length = secret.toList := by
        rw [htext, String.toList_append]
        rfl
      have hprefix : API_KEY_PREFIX.toList.isPrefixOf rawKey.toList = true := by
        rw [htext, String.toList_append]
        exact List.isPrefixOf_iff_prefix.mpr (List.prefix_append _ _)
      rw [isLegacyLookupKey, hlen, hdrop, hprefix, Bool.true_and]
      rfl
    rw [hlegacy, apiKeySecret_of_strip hstrip]
    have hne : secret ≠ rawKey := by
      intro heq
      have hlen := congrArg (fun s => s.toList.length) htext
      simp only [← heq, String.toList_append, List.length_append] at hlen
      have hthree : API_KEY_PREFIX.toList.length = 3 := rfl
      omega
    by_cases h : isSecretHex secret
    · simp [h, hne]
    · simp [h]

end Lookup

end EvidentLedger.Auth
