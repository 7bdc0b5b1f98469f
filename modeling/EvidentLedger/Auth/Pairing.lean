import EvidentLedger.Auth.Credentials
import EvidentLedger.IdentityDashboard
import EvidentLedger.Lib.Percent

/-!
# Pairing a desktop with an account

The desktop opens a page of the dashboard with an address of its own to return to, the dashboard sends
the browser there with a token, and the desktop reads the token off the request line
(`src/api/dashboard_desktop.rs:96-220`, `evident-gui-app/src/desktop_auth.rs:41-134`).

* `Redirect::to` panics where the target is no header value: no reply, and the token is created all the
  same (`connectForm`).
* `urlencoding_decode` slices two bytes after a percent sign. Where a character ends in between, the
  slice panics: no value.
* The pages are left out, but for what is put into them.

## Results

* `isAllowedRedirectUri_iff`: the addresses that are allowed, exactly.
* **`token_stays_local`**: a token is sent to a loopback address, shown on the page, or sent nowhere.
* `urlencodingDecode_encode`: every text is read back from its encoding.
* **`pairing_round_trip`**: the desktop's own address is allowed and unchanged by the page, and the
  desktop reads the very token that the dashboard has issued.
-/

namespace EvidentLedger.Auth

open Lib.Text Lib.Decimal Lib.Percent
open EvidentLedger.Paddle (stripPrefix stripPrefix_append)
open EvidentLedger.IdentityDashboard (splitOnce)

/-! ## The dashboard -/

/-- `is_allowed_redirect_uri`. -/
def isAllowedRedirectUri (uri : String) : Bool :=
  match (stripPrefix "http://127.0.0.1:" (trim uri)).or (stripPrefix "http://localhost:" (trim uri)) with
  | none => false
  | some rest =>
    match splitOnce '/' rest with
    | none => false
    | some (port, path) =>
      if port.isEmpty || !port.all Char.isDigit then false
      else
        let path := path.takeWhile (· ≠ '?')
        path == "callback".toList || path == "callback/".toList

/-- `urlencoding_encode`, of the dashboard and of the desktop. -/
def urlencodingEncode (s : String) : String := String.ofList (encode (asBytes s))

/-- `append_query`. -/
def appendQuery (base token expiresAt : String) : String :=
  let sep := if base.toList.contains '?' then "&" else "?"
  base ++ sep ++ "token=" ++ urlencodingEncode token ++ "&expires_at=" ++ urlencodingEncode expiresAt

/-- `str::replace` of one character. -/
def replaceChar (c : Char) (replacement input : String) : String :=
  String.ofList (input.toList.flatMap fun d => if d = c then replacement.toList else [d])

/-- `html_escape`. -/
def htmlEscape (input : String) : String :=
  replaceChar '"' "&quot;" (replaceChar '>' "&gt;" (replaceChar '<' "&lt;"
    (replaceChar '&' "&amp;" input)))

/-- `connect_page`: the value of its hidden field. -/
def connectPage (redirectUri : Option String) : String :=
  htmlEscape ((redirectUri.filter isAllowedRedirectUri).getD "")

inductive ConnectReply where
  | redirect (target : String)
  | page (token expiresAt : String)
  | invalidRequest
  deriving DecidableEq

/-- A byte that `HeaderValue::try_from` takes. -/
def isHeaderByte (b : UInt8) : Bool := b == 9 || (32 ≤ b && b != 127)

/-- A text that may stand in a header. -/
def isHeaderValue (text : String) : Bool := (asBytes text).all isHeaderByte

/-- `Redirect::to`; none where it panics. -/
def redirectTo (target : String) : Option ConnectReply :=
  if isHeaderValue target then some (.redirect target) else none

/-- `connect_form`, after the token was created; none where it panics. -/
def connectForm (created : GeneratedDesktopToken) (expiresAt : String)
    (redirectUri : Option String) : Option ConnectReply :=
  match (redirectUri.map trim).filter (· ≠ "") with
  | some redirect =>
    if !isAllowedRedirectUri redirect then some .invalidRequest
    else redirectTo (appendQuery redirect created.plaintext expiresAt)
  | none => some (.page (htmlEscape created.plaintext) expiresAt)

/-! ## The desktop -/

/-- The address that the desktop listens at, and sends along. -/
def redirectUri (port : Nat) : String :=
  "http://127.0.0.1:" ++ String.ofList (natChars port) ++ "/callback"

/-- `u8::from_str_radix(hex, 16)` of two bytes; a plus sign may stand before a digit. -/
def fromStrRadix16 (x y : UInt8) : Option UInt8 :=
  match hexVal (Char.ofNat y.toNat) with
  | none => none
  | some low =>
    if x = 43 then some (UInt8.ofNat low)
    else (hexVal (Char.ofNat x.toNat)).map fun high => UInt8.ofNat (16 * high + low)

/-- A byte inside a character. -/
def isContinuation (b : UInt8) : Bool := 128 ≤ b && b < 192

/-- The loop of `urlencoding_decode`; none where the slice panics. -/
def decodeBytes : List UInt8 → Option (List UInt8)
  | [] => some []
  | b :: rest =>
    match rest with
    | x :: y :: more =>
      if b = 37 then
        if more.head?.any isContinuation then none
        else
          match fromStrRadix16 x y with
          | some v => (v :: ·) <$> decodeBytes more
          | none => (b :: ·) <$> decodeBytes (x :: y :: more)
      else ((if b = 43 then 32 else b) :: ·) <$> decodeBytes (x :: y :: more)
    | rest => ((if b = 43 then 32 else b) :: ·) <$> decodeBytes rest

/-- How many bytes a character takes that begins with this one; none for one that begins nothing. -/
def charWidth (b : UInt8) : Nat :=
  if b < 0x80 then 1
  else if 0xC2 ≤ b && b ≤ 0xDF then 2
  else if 0xE0 ≤ b && b ≤ 0xEF then 3
  else if 0xF0 ≤ b && b ≤ 0xF4 then 4
  else 0

/-- The second byte of a character: no overlong form, no surrogate, nothing past the last character. -/
def secondOk (b c : UInt8) : Bool :=
  if b = 0xE0 then 0xA0 ≤ c && c ≤ 0xBF
  else if b = 0xED then 0x80 ≤ c && c ≤ 0x9F
  else if b = 0xF0 then 0x90 ≤ c && c ≤ 0xBF
  else if b = 0xF4 then 0x80 ≤ c && c ≤ 0x8F
  else isContinuation c

/-- How many bytes of the first character are there. -/
def charBytes : List UInt8 → Nat
  | b :: c :: more =>
    if 2 ≤ charWidth b && secondOk b c then
      2 + ((more.take (charWidth b - 2)).takeWhile isContinuation).length
    else 1
  | _ => 1

/-- Characters, with U+FFFD for every group of bytes that is none. -/
def lossyChars : Nat → List UInt8 → List Char
  | 0, _ => []
  | _, [] => []
  | fuel + 1, b :: rest =>
    let bytes := b :: rest
    let n := charBytes bytes
    let first :=
      if n = charWidth b then ((fromUtf8 (bytes.take n)).getD "").toList else [Char.ofNat 0xFFFD]
    first ++ lossyChars fuel (bytes.drop n)

/-- `String::from_utf8_lossy`. -/
def fromUtf8Lossy (bytes : List UInt8) : String :=
  (fromUtf8 bytes).getD (String.ofList (lossyChars bytes.length bytes))

/-- `urlencoding_decode`; none where it panics. -/
def urlencodingDecode (s : String) : Option String := (decodeBytes (asBytes s)).map fromUtf8Lossy

/-- The loop of `extract_token_from_request_line`. -/
def findToken : List (List Char) → Option (Option String)
  | [] => some none
  | pair :: pairs =>
    if pair.takeWhile (· ≠ '=') = "token".toList then
      match urlencodingDecode (String.ofList ((pair.dropWhile (· ≠ '=')).drop 1)) with
      | none => none
      | some decoded =>
        if DESKTOP_TOKEN_PREFIX.toList.isPrefixOf decoded.toList then some (some decoded)
        else findToken pairs
    else findToken pairs

/-- `extract_token_from_request_line`; none where it panics. -/
def extractTokenFromRequestLine (line : String) : Option (Option String) :=
  match ((line.toList.splitOnP isBlank).filter (· ≠ []))[1]? with
  | none => some none
  | some path =>
    match (path.splitOn '?')[1]? with
    | none => some none
    | some query => findToken (query.splitOn '&')

/-- What a browser asks for at an address. -/
def requestLine (target : String) : String :=
  "GET " ++ String.ofList ((target.toList.drop "http://".length).dropWhile (· ≠ '/')) ++ " HTTP/1.1"

/-- A character that is cut in two stops the desktop. -/
example : extractTokenFromRequestLine "GET /callback?token=%1€ HTTP/1.1" = none := by decide +kernel

/-! ## Where a token goes -/

section Redirects

/-- The addresses of the machine itself, at the path of the callback. -/
structure Loopback (uri : String) (host port path query : List Char) : Prop where
  text : uri.toList = "http://".toList ++ (host ++ ':' :: (port ++ '/' :: (path ++ query)))
  host : host = "127.0.0.1".toList ∨ host = "localhost".toList
  port : port ≠ [] ∧ ∀ c ∈ port, c.isDigit = true
  path : path = "callback".toList ∨ path = "callback/".toList
  query : ∀ c rest, query = c :: rest → c = '?'

theorem splitOnce_some {c : Char} {text : String} {first rest : List Char}
    (h : splitOnce c text = some (first, rest)) : text.toList = first ++ c :: rest ∧ c ∉ first := by
  unfold splitOnce at h
  rw [List.span_eq_takeWhile_dropWhile] at h
  split at h
  · exact absurd h (by simp)
  · rename_i found d more hspan
    obtain ⟨rfl, hdrop⟩ := Prod.mk.inj hspan
    obtain ⟨rfl, rfl⟩ := Prod.mk.inj (Option.some.inj h)
    have hd := List.head?_dropWhile_not (· != c) text.toList
    rw [hdrop] at hd
    have hdc : d = c := by simpa using hd
    refine ⟨?_, fun hmem => ?_⟩
    · have hjoin := List.takeWhile_append_dropWhile (p := (· != c)) (l := text.toList)
      rw [hdrop, hdc] at hjoin
      exact hjoin.symm
    · exact absurd (List.mem_takeWhile_imp hmem) (by simp)

theorem splitOnce_append {c : Char} {first rest : List Char} (h : c ∉ first) :
    splitOnce c (String.ofList (first ++ c :: rest)) = some (first, rest) := by
  have hplain : ∀ d ∈ first, (d != c) = true := by
    intro d hd
    rw [bne_iff_ne]
    rintro rfl
    exact h hd
  unfold splitOnce
  rw [String.toList_ofList, List.span_eq_takeWhile_dropWhile, List.takeWhile_append_of_pos hplain,
    List.dropWhile_append_of_pos hplain]
  simp

theorem not_mem_digits {c : Char} {port : List Char} (hport : ∀ d ∈ port, d.isDigit = true)
    (hc : c.isDigit = false) : c ∉ port := fun hmem => by simp [hport c hmem] at hc

/-- The two beginnings that are allowed. -/
theorem allowedRest_iff {uri : String} {rest : List Char} :
    (stripPrefix "http://127.0.0.1:" uri).or (stripPrefix "http://localhost:" uri) =
        some (String.ofList rest) ↔
      ∃ host, (host = "127.0.0.1".toList ∨ host = "localhost".toList) ∧
        uri.toList = "http://".toList ++ (host ++ ':' :: rest) := by
  constructor
  · intro h
    cases hfirst : stripPrefix "http://127.0.0.1:" uri with
    | some found =>
      rw [hfirst, Option.some_or] at h
      refine ⟨"127.0.0.1".toList, Or.inl rfl, ?_⟩
      rw [eq_append_of_stripPrefix hfirst, Option.some.inj h, String.toList_append,
        String.toList_ofList, String.toList_ofList]
      rfl
    | none =>
      rw [hfirst, Option.none_or] at h
      refine ⟨"localhost".toList, Or.inr rfl, ?_⟩
      rw [eq_append_of_stripPrefix h, String.toList_append, String.toList_ofList,
        String.toList_ofList]
      rfl
  · rintro ⟨host, hhost, htext⟩
    rcases hhost with rfl | rfl
    · have hstrip := stripPrefix_append "http://127.0.0.1:" (String.ofList rest)
      have heq : "http://127.0.0.1:" ++ String.ofList rest = uri := by
        apply String.toList_inj.mp
        rw [htext, String.toList_append, String.toList_ofList, String.toList_ofList]
        rfl
      rw [heq] at hstrip
      rw [hstrip, Option.some_or]
    · have hstrip := stripPrefix_append "http://localhost:" (String.ofList rest)
      have heq : "http://localhost:" ++ String.ofList rest = uri := by
        apply String.toList_inj.mp
        rw [htext, String.toList_append, String.toList_ofList, String.toList_ofList]
        rfl
      have hother : stripPrefix "http://127.0.0.1:" uri = none := by
        unfold stripPrefix
        rw [htext, if_neg]
        exact Bool.false_ne_true
      rw [heq] at hstrip
      rw [hother, hstrip, Option.none_or]

/-- **The addresses that are allowed.** -/
theorem isAllowedRedirectUri_iff {uri : String} :
    isAllowedRedirectUri uri = true ↔
      ∃ host port path query, Loopback (trim uri) host port path query := by
  constructor
  · intro h
    unfold isAllowedRedirectUri at h
    split at h
    · exact absurd h (by simp)
    · rename_i rest hrest
      split at h
      · exact absurd h (by simp)
      · rename_i port path hsplit
        obtain ⟨htext, -⟩ := splitOnce_some hsplit
        rw [← String.ofList_toList (s := rest), htext] at hrest
        obtain ⟨host, hhost, huri⟩ := allowedRest_iff.mp hrest
        split_ifs at h with hport
        rw [Bool.or_eq_true, not_or, Bool.not_eq_true, List.isEmpty_eq_false_iff] at hport
        simp only [Bool.not_eq_true', Bool.not_eq_false, List.all_eq_true] at hport
        refine ⟨host, port, path.takeWhile (· ≠ '?'), path.dropWhile (· ≠ '?'), ?_, hhost, hport, ?_,
          ?_⟩
        · rw [huri, List.takeWhile_append_dropWhile]
        · simpa using h
        · intro c more hquery
          have hhead := List.head?_dropWhile_not (fun c => decide (c ≠ '?')) path
          rw [hquery] at hhead
          simpa using hhead
  · rintro ⟨host, port, path, query, htext, hhost, ⟨hne, hdigits⟩, hpath, hquery⟩
    have hrest := allowedRest_iff.mpr ⟨host, hhost, htext⟩
    have hsplit : splitOnce '/' (String.ofList (port ++ '/' :: (path ++ query))) =
        some (port, path ++ query) := splitOnce_append (not_mem_digits hdigits (by decide))
    have htake : (path ++ query).takeWhile (· ≠ '?') = path := by
      have hplain : ∀ c ∈ path, decide (c ≠ '?') = true := by
        rcases hpath with rfl | rfl
        · exact List.all_eq_true.mp (by decide)
        · exact List.all_eq_true.mp (by decide)
      rw [List.takeWhile_append_of_pos hplain]
      cases query with
      | nil => simp
      | cons c more =>
        rw [hquery c more rfl]
        simp
    have hport : (port.isEmpty || !port.all Char.isDigit) = false := by
      rw [Bool.or_eq_false_iff, List.isEmpty_eq_false_iff, Bool.not_eq_false', List.all_eq_true]
      exact ⟨hne, hdigits⟩
    unfold isAllowedRedirectUri
    rw [hrest]
    simp only [hsplit, hport, htake]
    rcases hpath with rfl | rfl
    · decide
    · decide

/-- What a query is appended to stays at its address. -/
theorem Loopback.append {uri : String} {host port path query : List Char}
    (h : Loopback uri host port path query) (token expiresAt : String) :
    ∃ query', Loopback (appendQuery uri token expiresAt) host port path query' := by
  have htext : (appendQuery uri token expiresAt).toList =
      uri.toList ++ ((if uri.toList.contains '?' then "&" else "?").toList ++ ("token=" ++
        urlencodingEncode token ++ "&expires_at=" ++ urlencodingEncode expiresAt).toList) := by
    unfold appendQuery
    simp only [String.toList_append, List.append_assoc]
  have hjoin : ∀ tail, uri.toList ++ tail = "http://".toList ++ (host ++ ':' :: (port ++
      '/' :: (path ++ (query ++ tail)))) := by
    intro tail
    rw [h.text]
    simp only [List.append_assoc, List.cons_append]
  refine ⟨_, htext.trans (hjoin _), h.host, h.port, h.path, ?_⟩
  intro c rest hquery
  cases query with
  | cons d more =>
    obtain ⟨rfl, -⟩ := List.cons.inj hquery
    exact h.query d more rfl
  | nil =>
    have hno : uri.toList.contains '?' = false := by
      rw [h.text, List.append_nil, Bool.eq_false_iff, ne_eq, List.contains_iff_mem]
      intro hmem
      have hport := not_mem_digits (c := '?') h.port.2 (by decide)
      have hhost : '?' ∉ host := by rcases h.host with hh | hh <;> rw [hh] <;> decide
      have hpath : '?' ∉ path := by rcases h.path with hp | hp <;> rw [hp] <;> decide
      have hscheme : '?' ∉ "http://".toList := by decide
      simp only [List.mem_append, List.mem_cons] at hmem
      rcases hmem with hm | hm | hm | hm | hm | hm
      · exact hscheme hm
      · exact hhost hm
      · exact absurd hm (by decide)
      · exact hport hm
      · exact absurd hm (by decide)
      · exact hpath hm
    rw [hno, List.nil_append] at hquery
    exact (List.cons.inj hquery).1.symm

theorem isHeaderValue_append (first rest : String) :
    isHeaderValue (first ++ rest) = (isHeaderValue first && isHeaderValue rest) := by
  rw [isHeaderValue, asBytes_append, List.all_append]
  rfl

/-- What is encoded may stand in a header. -/
theorem isHeaderValue_encode (s : String) : isHeaderValue (urlencodingEncode s) = true := by
  rw [isHeaderValue, urlencodingEncode, asBytes_encode, List.all_eq_true]
  intro b hb
  obtain ⟨x, -, hx⟩ := List.mem_flatMap.mp hb
  obtain ⟨c, hc, rfl⟩ := List.mem_map.mp hx
  have hplain := (encodeByte_plain x c hc).1
  exact plain_induction (p := fun c => isHeaderByte (UInt8.ofNat c.toNat)) (by decide +kernel) hplain

/-- **A redirect panics for its address**, never for what is appended to it. -/
theorem isHeaderValue_appendQuery (uri token expiresAt : String) :
    isHeaderValue (appendQuery uri token expiresAt) = isHeaderValue uri := by
  have hsep : isHeaderValue (if uri.toList.contains '?' then "&" else "?") = true := by
    split_ifs <;> decide +kernel
  have htoken : isHeaderValue "token=" = true := by decide +kernel
  have hexpires : isHeaderValue "&expires_at=" = true := by decide +kernel
  unfold appendQuery
  simp only [isHeaderValue_append, hsep, htoken, hexpires, isHeaderValue_encode, Bool.and_true]

/-- **What becomes of the token**: it goes to a loopback address, or is shown where no address was given;
an address that is not allowed is refused, and one that no header may hold gets no reply. -/
def Kept (token : String) (uri : Option String) : Option ConnectReply → Prop
  | some (.redirect target) => ∃ host port path query, Loopback target host port path query
  | some (.page shown _) => shown = htmlEscape token ∧ ∀ u, uri = some u → trim u = ""
  | some .invalidRequest => ∃ u, uri = some u ∧ isAllowedRedirectUri (trim u) = false
  | none => ∃ u, uri = some u ∧ isAllowedRedirectUri (trim u) = true ∧ isHeaderValue (trim u) = false

/-- **A token stays on the machine.** -/
theorem token_stays_local (created : GeneratedDesktopToken) (expiresAt : String)
    (uri : Option String) :
    Kept created.plaintext uri (connectForm created expiresAt uri) := by
  cases uri with
  | none => exact ⟨rfl, fun u hu => absurd hu (by simp)⟩
  | some u =>
    by_cases hblank : trim u = ""
    · have hchosen : ((some u).map trim).filter (· ≠ "") = none := by simp [hblank]
      unfold connectForm
      rw [hchosen]
      exact ⟨rfl, fun u' hu => by rw [← Option.some.inj hu]; exact hblank⟩
    · have hchosen : ((some u).map trim).filter (· ≠ "") = some (trim u) := by simp [hblank]
      unfold connectForm
      rw [hchosen]
      dsimp only
      cases hallowed : isAllowedRedirectUri (trim u) with
      | false =>
        rw [Bool.not_false, if_pos rfl]
        exact ⟨u, rfl, hallowed⟩
      | true =>
        rw [Bool.not_true, if_neg Bool.false_ne_true, redirectTo, isHeaderValue_appendQuery]
        cases hheader : isHeaderValue (trim u) with
        | false =>
          rw [if_neg Bool.false_ne_true]
          exact ⟨u, rfl, hallowed, hheader⟩
        | true =>
          obtain ⟨host, port, path, query, h⟩ := isAllowedRedirectUri_iff.mp hallowed
          rw [trim_trim] at h
          obtain ⟨query', h'⟩ := h.append created.plaintext expiresAt
          rw [if_pos rfl]
          exact ⟨host, port, path, query', h'⟩

/-- An allowed address with a line break in it. -/
example : connectForm ⟨"desktop_", ""⟩ "" (some "http://127.0.0.1:1/callback?\nx") = none := by
  decide +kernel

end Redirects

/-! ## What the desktop reads -/

section Encoding

/-- A byte as it is sent. -/
def sent (b : UInt8) : List UInt8 := (encodeByte b).map fun c => UInt8.ofNat c.toNat

/-- Whether the three bytes of one are read back. -/
def readsBack (b : UInt8) : Bool :=
  match sent b with
  | [c] => c == b && b != 37 && b != 43
  | [p, x, y] => p == 37 && fromStrRadix16 x y == some b && x < 128
  | _ => false

theorem readsBack_all (b : UInt8) : readsBack b = true := by
  have hall : ∀ n < 256, readsBack (UInt8.ofNat n) = true := by decide +kernel
  have hb := hall b.toNat b.toNat_lt
  rwa [UInt8.ofNat_toNat] at hb

/-- What is sent is ASCII. -/
theorem sent_ascii (bytes : List UInt8) : ((bytes.flatMap sent).head?).any isContinuation = false := by
  have hall : ∀ b ∈ bytes.flatMap sent, isContinuation b = false := by
    intro b hb
    obtain ⟨c, -, hc⟩ := List.mem_flatMap.mp hb
    obtain ⟨d, hd, rfl⟩ := List.mem_map.mp hc
    have hlow := (encodeByte_plain c d hd).2
    have hnat : (UInt8.ofNat d.toNat).toNat = d.toNat := by
      rw [UInt8.toNat_ofNat']
      omega
    unfold isContinuation
    rw [Bool.and_eq_false_iff]
    refine Or.inl (decide_eq_false fun hle => ?_)
    rw [UInt8.le_iff_toNat_le, hnat] at hle
    exact absurd hle (by simpa using hlow)
  cases h : bytes.flatMap sent with
  | nil => rfl
  | cons b rest =>
    rw [h] at hall
    simpa using hall b List.mem_cons_self

theorem decodeBytes_plain {b : UInt8} {rest : List UInt8} (h : b ≠ 37) (h' : b ≠ 43) :
    decodeBytes (b :: rest) = (b :: ·) <$> decodeBytes rest := by
  match rest with
  | [] => simp [decodeBytes, h']
  | [x] => simp [decodeBytes, h']
  | x :: y :: more => rw [decodeBytes, if_neg h, if_neg h']

theorem decodeBytes_octet {b x y : UInt8} {more : List UInt8} (h : fromStrRadix16 x y = some b)
    (hmore : more.head?.any isContinuation = false) :
    decodeBytes (37 :: x :: y :: more) = (b :: ·) <$> decodeBytes more := by
  rw [decodeBytes, if_pos rfl, if_neg (by simp [hmore]), h]

/-- **Every byte is read back.** -/
theorem decodeBytes_encode (bytes : List UInt8) : decodeBytes (bytes.flatMap sent) = some bytes := by
  induction bytes with
  | nil => rfl
  | cons b bytes ih =>
    have hb := readsBack_all b
    have hmore := sent_ascii bytes
    unfold readsBack at hb
    rw [List.flatMap_cons]
    split at hb
    · rename_i c hsent
      simp only [Bool.and_eq_true, beq_iff_eq, bne_iff_ne] at hb
      obtain ⟨⟨rfl, hpercent⟩, hplus⟩ := hb
      rw [hsent, List.singleton_append, decodeBytes_plain hpercent hplus, ih]
      rfl
    · rename_i p x y hsent
      simp only [Bool.and_eq_true, beq_iff_eq] at hb
      obtain ⟨⟨rfl, hradix⟩, -⟩ := hb
      rw [hsent]
      change decodeBytes (37 :: x :: y :: bytes.flatMap sent) = _
      rw [decodeBytes_octet hradix hmore, ih]
      rfl
    · exact absurd hb Bool.false_ne_true

/-- **Every text is read back from its encoding.** -/
theorem urlencodingDecode_encode (s : String) :
    urlencodingDecode (urlencodingEncode s) = some s := by
  rw [urlencodingDecode, urlencodingEncode, asBytes_encode]
  change (decodeBytes ((asBytes s).flatMap sent)).map fromUtf8Lossy = _
  rw [decodeBytes_encode, Option.map_some, fromUtf8Lossy, fromUtf8_asBytes]
  rfl

theorem encode_ne {c : Char} (s : String) (h : plain c = false) :
    c ∉ (urlencodingEncode s).toList := by
  intro hmem
  rw [urlencodingEncode, String.toList_ofList] at hmem
  rw [(encode_plain hmem).1] at h
  exact absurd h (by simp)

end Encoding

/-! ## What the page shows -/

section Page

/-- One character of a page. -/
def escapeChar (c : Char) : List Char :=
  if c = '&' then "&amp;".toList else if c = '<' then "&lt;".toList
  else if c = '>' then "&gt;".toList else if c = '"' then "&quot;".toList else [c]

theorem escape_passes (c : Char) :
    (((if c = '&' then "&amp;".toList else [c]).flatMap fun d =>
      if d = '<' then "&lt;".toList else [d]).flatMap fun d =>
        if d = '>' then "&gt;".toList else [d]).flatMap (fun d =>
          if d = '"' then "&quot;".toList else [d]) = escapeChar c := by
  unfold escapeChar
  by_cases hamp : c = '&'
  · rw [if_pos hamp, if_pos hamp]
    decide
  · rw [if_neg hamp, if_neg hamp]
    by_cases hlt : c = '<'
    · subst hlt
      decide
    · by_cases hgt : c = '>'
      · subst hgt
        decide
      · by_cases hquot : c = '"'
        · subst hquot
          decide
        · rw [if_neg hlt, if_neg hgt, if_neg hquot, List.flatMap_cons, if_neg hlt, List.flatMap_nil,
            List.append_nil, List.flatMap_cons, if_neg hgt, List.flatMap_nil, List.append_nil,
            List.flatMap_cons, if_neg hquot, List.flatMap_nil, List.append_nil]

/-- **The four passes are one.** -/
theorem htmlEscape_eq (s : String) : htmlEscape s = String.ofList (s.toList.flatMap escapeChar) := by
  unfold htmlEscape replaceChar
  simp only [String.toList_ofList, List.flatMap_assoc]
  congr 1
  refine List.flatMap_congr fun c _ => ?_
  rw [← escape_passes c]
  simp only [List.flatMap_assoc]

/-- What needs no escape is shown as it is. -/
theorem htmlEscape_of_plain {s : String} (h : ∀ c ∈ s.toList, escapeChar c = [c]) :
    htmlEscape s = s := by
  rw [htmlEscape_eq, List.flatMap_congr h, List.flatMap_singleton', String.ofList_toList]
end Page

/-! ## The round trip -/

section RoundTrip

/-- The path that the browser is sent back to. -/
def callbackPath (token expiresAt : String) : List Char :=
  "/callback?token=".toList ++ ((urlencodingEncode token).toList ++
    ("&expires_at=".toList ++ (urlencodingEncode expiresAt).toList))

theorem toList_between (start after : String) (middle : List Char) :
    (start ++ String.ofList middle ++ after).toList =
      start.toList ++ (middle ++ after.toList) := by
  rw [String.toList_append, String.toList_append, String.toList_ofList, List.append_assoc]

theorem redirectUri_toList (port : Nat) :
    (redirectUri port).toList = "http://".toList ++ ("127.0.0.1".toList ++
      ':' :: (natChars port ++ '/' :: ("callback".toList ++ []))) := by
  unfold redirectUri
  rw [toList_between]
  rfl

theorem plain_of_digit {n : Nat} {c : Char} (h : c ∈ natChars n) : plain c = true := by
  unfold plain Char.isAlphanum
  rw [isDigit_of_mem h]
  simp

/-- The characters of an address. -/
theorem redirectUri_chars (port : Nat) :
    ∀ c ∈ (redirectUri port).toList, plain c = true ∨ c = ':' ∨ c = '/' := by
  have hfixed : ∀ text : List Char, text.all (fun c => plain c || c == ':' || c == '/') = true →
      ∀ c ∈ text, plain c = true ∨ c = ':' ∨ c = '/' := by
    intro text hall c hc
    have hchar := List.all_eq_true.mp hall c hc
    simpa only [Bool.or_eq_true, beq_iff_eq, or_assoc] using hchar
  intro c hc
  unfold redirectUri at hc
  rw [toList_between, List.mem_append, List.mem_append] at hc
  rcases hc with hc | hc | hc
  · exact hfixed _ (by decide) c hc
  · exact Or.inl (plain_of_digit hc)
  · exact hfixed _ (by decide) c hc

theorem isHeaderByte_of_plain {c : Char} (h : plain c = true) :
    isHeaderByte (UInt8.ofNat c.toNat) = true :=
  plain_induction (p := fun c => isHeaderByte (UInt8.ofNat c.toNat)) (by decide +kernel) h

/-- The desktop's own address may stand in a header. -/
theorem isHeaderValue_own (port : Nat) : isHeaderValue (redirectUri port) = true := by
  have hdigits : isHeaderValue (String.ofList (natChars port)) = true := by
    rw [isHeaderValue, asBytes_ascii fun c hc => ascii_of_plain (plain_of_digit hc), List.all_map,
      List.all_eq_true]
    exact fun c hc => isHeaderByte_of_plain (plain_of_digit hc)
  have hhost : isHeaderValue "http://127.0.0.1:" = true := by decide +kernel
  have hpath : isHeaderValue "/callback" = true := by decide +kernel
  unfold redirectUri
  simp only [isHeaderValue_append, hhost, hdigits, hpath, Bool.and_self]

theorem redirectUri_not_blank (port : Nat) : ∀ c ∈ (redirectUri port).toList, isBlank c = false := by
  intro c hc
  rcases redirectUri_chars port c hc with h | rfl | rfl
  · exact not_blank_of_plain h
  · rfl
  · rfl

theorem escapeChar_of_plain {c : Char} (h : plain c = true) : escapeChar c = [c] := by
  have hchar := plain_induction (p := fun c => c != '&' && c != '<' && c != '>' && c != '"')
    (by decide +kernel) h
  simp only [Bool.and_eq_true, bne_iff_ne] at hchar
  obtain ⟨⟨⟨hamp, hlt⟩, hgt⟩, hquot⟩ := hchar
  rw [escapeChar, if_neg hamp, if_neg hlt, if_neg hgt, if_neg hquot]

/-- **The desktop's own address is allowed.** -/
theorem isAllowedRedirectUri_own (port : Nat) : isAllowedRedirectUri (redirectUri port) = true := by
  refine isAllowedRedirectUri_iff.mpr ⟨"127.0.0.1".toList, natChars port, "callback".toList, [], ?_⟩
  rw [trim_of_not_blank (redirectUri_not_blank port)]
  exact ⟨redirectUri_toList port, Or.inl rfl, ⟨natChars_ne_nil port, fun c hc => isDigit_of_mem hc⟩,
    Or.inl rfl, fun c rest h => absurd h (by simp)⟩

/-- What the browser asks the desktop for. -/
theorem requestLine_own (port : Nat) (token expiresAt : String) :
    (requestLine (appendQuery (redirectUri port) token expiresAt)).toList =
      "GET".toList ++ ' ' :: (callbackPath token expiresAt ++ ' ' :: "HTTP/1.1".toList) := by
  have hno : (redirectUri port).toList.contains '?' = false := by
    rw [Bool.eq_false_iff, ne_eq, List.contains_iff_mem]
    intro hmem
    rcases redirectUri_chars port '?' hmem with h | h | h
    · exact absurd h (by decide)
    · exact absurd h (by decide)
    · exact absurd h (by decide)
  have htarget : (appendQuery (redirectUri port) token expiresAt).toList =
      "http://".toList ++ (("127.0.0.1:".toList ++ natChars port) ++
        callbackPath token expiresAt) := by
    unfold appendQuery callbackPath
    rw [if_neg (by rw [hno]; exact Bool.false_ne_true)]
    rw [String.toList_append, String.toList_append, String.toList_append, String.toList_append,
      String.toList_append, redirectUri_toList]
    generalize (urlencodingEncode token).toList = first
    generalize (urlencodingEncode expiresAt).toList = second
    generalize natChars port = digits
    rw [List.append_assoc, List.append_assoc, List.append_assoc, List.append_assoc, List.append_nil,
      List.append_assoc, List.append_assoc, List.cons_append, List.append_assoc, List.append_assoc]
    rfl
  have hplain : ∀ c ∈ "127.0.0.1:".toList ++ natChars port, decide (c ≠ '/') = true := by
    intro c hc
    rcases List.mem_append.mp hc with hc | hc
    · have hall : "127.0.0.1:".toList.all (fun c => decide (c ≠ '/')) = true := by decide
      exact List.all_eq_true.mp hall c hc
    · rw [decide_eq_true_eq]
      rintro rfl
      exact absurd (isDigit_of_mem hc) (by decide)
  have hpath : ((appendQuery (redirectUri port) token expiresAt).toList.drop
      "http://".length).dropWhile (· ≠ '/') = callbackPath token expiresAt := by
    have hdrop : ∀ rest : List Char, ("http://".toList ++ rest).drop "http://".length = rest :=
      fun rest => List.drop_left
    rw [htarget, hdrop, List.dropWhile_append_of_pos hplain]
    rfl
  unfold requestLine
  rw [hpath, toList_between]
  rfl

theorem not_blank_fixed {text : List Char} (hall : text.all (fun c => !isBlank c) = true) :
    ∀ c ∈ text, isBlank c = false := by
  intro c hc
  have hchar := List.all_eq_true.mp hall c hc
  rwa [Bool.not_eq_true'] at hchar

/-- The path is one word. -/
theorem callbackPath_chars (token expiresAt : String) :
    ∀ c ∈ callbackPath token expiresAt, isBlank c = false := by
  have hencoded : ∀ (s : String), ∀ c ∈ (urlencodingEncode s).toList, isBlank c = false := by
    intro s c hc
    rw [urlencodingEncode, String.toList_ofList] at hc
    exact not_blank_of_plain (encode_plain hc).1
  intro c hc
  unfold callbackPath at hc
  rw [List.mem_append, List.mem_append, List.mem_append] at hc
  rcases hc with hc | hc | hc | hc
  · exact not_blank_fixed (by decide) c hc
  · exact hencoded token c hc
  · exact not_blank_fixed (by decide) c hc
  · exact hencoded expiresAt c hc

theorem findToken_token {value : List Char} {decoded : String} {pairs : List (List Char)}
    (hvalue : urlencodingDecode (String.ofList value) = some decoded)
    (hdecoded : DESKTOP_TOKEN_PREFIX.toList.isPrefixOf decoded.toList = true) :
    findToken (("token=".toList ++ value) :: pairs) = some (some decoded) := by
  have hkey : ("token=".toList ++ value).takeWhile (· ≠ '=') = "token".toList := rfl
  have hrest : (("token=".toList ++ value).dropWhile (· ≠ '=')).drop 1 = value := rfl
  rw [findToken, if_pos hkey, hrest, hvalue]
  exact if_pos hdecoded

/-- **The desktop reads the token that was sent**, where it is a desktop token. -/
theorem extract_own (port : Nat) {token : String} (expiresAt : String)
    (htoken : DESKTOP_TOKEN_PREFIX.toList.isPrefixOf token.toList = true) :
    extractTokenFromRequestLine (requestLine (appendQuery (redirectUri port) token expiresAt)) =
      some (some token) := by
  have hwords : (requestLine (appendQuery (redirectUri port) token expiresAt)).toList.splitOnP isBlank =
      ["GET".toList, callbackPath token expiresAt, "HTTP/1.1".toList] := by
    rw [requestLine_own, List.splitOnP_append_cons_of_forall_mem (not_blank_fixed (by decide)) _
        (by decide),
      List.splitOnP_append_cons_of_forall_mem (callbackPath_chars token expiresAt) _ (by decide),
      List.splitOnP_eq_singleton (not_blank_fixed (by decide))]
  have hquery : (callbackPath token expiresAt).splitOn '?' = ["/callback".toList,
      "token=".toList ++ (urlencodingEncode token).toList ++ '&' ::
        ("expires_at=".toList ++ (urlencodingEncode expiresAt).toList)] := by
    have htext : callbackPath token expiresAt = "/callback".toList ++ '?' ::
        ("token=".toList ++ (urlencodingEncode token).toList ++ '&' ::
          ("expires_at=".toList ++ (urlencodingEncode expiresAt).toList)) := by
      unfold callbackPath
      rw [List.append_assoc]
      rfl
    rw [htext, List.splitOn_append_cons_self_of_not_mem (by decide), List.splitOn_eq_singleton]
    simp only [List.mem_append, List.mem_cons, not_or]
    exact ⟨⟨by decide, encode_ne token (by decide)⟩, by decide, by decide,
      encode_ne expiresAt (by decide)⟩
  have hpairs : ("token=".toList ++ (urlencodingEncode token).toList ++ '&' ::
      ("expires_at=".toList ++ (urlencodingEncode expiresAt).toList)).splitOn '&' =
        ["token=".toList ++ (urlencodingEncode token).toList,
          "expires_at=".toList ++ (urlencodingEncode expiresAt).toList] := by
    rw [List.splitOn_append_cons_self_of_not_mem, List.splitOn_eq_singleton]
    · rw [List.mem_append, not_or]
      exact ⟨by decide, encode_ne expiresAt (by decide)⟩
    · rw [List.mem_append, not_or]
      exact ⟨by decide, encode_ne token (by decide)⟩
  have hvalue : urlencodingDecode (String.ofList (urlencodingEncode token).toList) = some token := by
    rw [String.ofList_toList, urlencodingDecode_encode]
  have hpath : ((["GET".toList, callbackPath token expiresAt, "HTTP/1.1".toList]).filter (· ≠ []))[1]? =
      some (callbackPath token expiresAt) := rfl
  unfold extractTokenFromRequestLine
  rw [hwords, hpath]
  dsimp only
  rw [hquery]
  dsimp only [List.getElem?_cons_succ, List.getElem?_cons_zero]
  rw [hpairs, findToken_token hvalue htoken]

/-- **Pairing.** The page keeps the address that the desktop listens at, the form answers with a
redirect, and from it the desktop reads the token that was created. -/
theorem pairing_round_trip (sha : Sha256) (port : Nat) (bytes : Bytes 16) (expiresAt : String) :
    connectPage (some (redirectUri port)) = redirectUri port ∧
    ∃ target, connectForm (generateDesktopToken sha bytes) expiresAt (some (redirectUri port)) =
        some (.redirect target) ∧
      extractTokenFromRequestLine (requestLine target) =
        some (some (generateDesktopToken sha bytes).plaintext) := by
  have hallowed := isAllowedRedirectUri_own port
  have htrim := trim_of_not_blank (redirectUri_not_blank port)
  have hne : redirectUri port ≠ "" := by
    intro h
    rw [h] at hallowed
    exact absurd hallowed (by decide)
  refine ⟨?_, appendQuery (redirectUri port) (generateDesktopToken sha bytes).plaintext expiresAt, ?_,
    extract_own port expiresAt ?_⟩
  · rw [connectPage, Option.filter_some, if_pos hallowed, Option.getD_some]
    refine htmlEscape_of_plain fun c hc => ?_
    rcases redirectUri_chars port c hc with h | rfl | rfl
    · exact escapeChar_of_plain h
    · rfl
    · rfl
  · have hchosen : ((some (redirectUri port)).map trim).filter (· ≠ "") = some (redirectUri port) := by
      rw [Option.map_some, htrim, Option.filter_some, if_pos (decide_eq_true hne)]
    rw [connectForm, hchosen]
    simp only [hallowed, redirectTo, isHeaderValue_appendQuery, isHeaderValue_own, Bool.not_true,
      Bool.false_eq_true, if_false, if_true]
  · rw [generateDesktopToken, String.toList_append, List.isPrefixOf_iff_prefix]
    exact List.prefix_append _ _

end RoundTrip


end EvidentLedger.Auth
