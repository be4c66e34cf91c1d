import KiloProxy.Text.Kotlin

/-!
# The connection string of a profile

`host:port:user:pass`, as the edit sheet and the detail sheet copy it and as the edit
sheet parses what is pasted. Nothing is escaped: a `:` inside a field is read as the end
of that field, and the parser trims every piece.
-/

namespace KiloProxy.Ui
set_option autoImplicit false
open KiloProxy.Text

/-- What a profile stores of its proxy. -/
structure SavedProxy where
  server : Str
  port : Int
  username : Str
  password : Str
deriving DecidableEq, Repr

/-- The fields of the edit sheet. -/
structure ProxyForm where
  host : Str
  portText : Str
  username : Str
  password : Str
deriving DecidableEq, Repr

/-- What `LaunchedEffect(profileName)` loads into the sheet. -/
def ProxyForm.load (p : SavedProxy) : ProxyForm := ⟨p.server, ofInt p.port, p.username, p.password⟩

/-- `copyProxyString` -/
def copyProxyString (form : ProxyForm) : Str :=
  let hostPart := trim form.host
  let portPart := trim form.portText
  if hostPart = [] ∧ portPart = [] then []
  else [':'].intercalate [hostPart, portPart, trim form.username, trim form.password]

/-- The `copyText` of `CopyRow`: `"$server:$port:$username:$password"`. -/
def copyRow (p : SavedProxy) : Str :=
  p.server ++ ':' :: (ofInt p.port ++ ':' :: (p.username ++ ':' :: p.password))

/-- `port.toIntOrNull() in 1..65535` -/
def validPort (port : Str) : Bool :=
  match toIntOrNull port with
  | some n => decide (1 ≤ n ∧ n ≤ 65535)
  | none => false

/-- `parseProxyString` -/
def parseProxyString (input : Str) : Option (List Str) :=
  let trimmed := trim input
  if trimmed = [] then none
  else
    match split ':' trimmed with
    | first :: second :: rest =>
      let host := trim first
      let port := trim second
      if host = [] ∨ validPort port = false then none
      else some [host, port, trim (rest[0]?.getD []), trim (rest[1]?.getD [])]
    | _ => none

/-- The parsed fields are those of the profile. -/
def Recovers (parsed : Option (List Str)) (p : SavedProxy) : Prop :=
  ∃ port, parsed = some [p.server, port, p.username, p.password] ∧ toIntOrNull port = some p.port

/-- The condition: a trimmed host, and no separator in a text field. -/
structure Unambiguous (p : SavedProxy) : Prop where
  trimmed : trim p.server = p.server
  server : ':' ∉ p.server
  username : ':' ∉ p.username
  password : ':' ∉ p.password

example : parseProxyString " 10.0.0.1 : 1080:user:pa ss ".toList =
    some ["10.0.0.1".toList, "1080".toList, "user".toList, "pa ss".toList] := by decide +kernel

/-! ## What a parsed field looks like -/

theorem trim_piece {s t n : Str} (h : n ∈ split ':' s) (ht : t = trim n) : ':' ∉ t ∧ trim t = t := by
  subst ht
  exact ⟨fun hc => not_mem_split h (mem_of_mem_trimBy hc), trimBy_trimBy _ n⟩

theorem trim_nil : trim [] = [] := rfl

/-- A missing piece reads as an empty one. -/
theorem trim_getD {s : Str} {rest : List Str} (h : ∀ n ∈ rest, n ∈ split ':' s) (i : Nat) :
    ':' ∉ trim (rest[i]?.getD []) := by
  cases hi : rest[i]? with
  | none => rw [Option.getD_none, trim_nil]; exact List.not_mem_nil
  | some n => exact (trim_piece (h n (List.mem_of_getElem? hi)) rfl).1

/-- No parsed field holds the separator, and the host is trimmed. -/
theorem parse_fields {input host port username password : Str}
    (h : parseProxyString input = some [host, port, username, password]) :
    trim host = host ∧ ':' ∉ host ∧ ':' ∉ username ∧ ':' ∉ password := by
  simp only [parseProxyString] at h
  split at h
  · cases h
  · split at h
    · rename_i first second rest hsplit
      split at h
      · cases h
      · cases h
        have hfirst : first ∈ split ':' (trim input) := by rw [hsplit]; exact List.mem_cons_self
        have hrest : ∀ n ∈ rest, n ∈ split ':' (trim input) := fun n hn => by
          rw [hsplit]
          exact List.mem_cons_of_mem _ (List.mem_cons_of_mem _ hn)
        obtain ⟨hcolon, htrim⟩ := trim_piece hfirst rfl
        exact ⟨htrim, hcolon, trim_getD hrest 0, trim_getD hrest 1⟩
    · cases h

/-! ## Reading a joined string back -/

theorem joined_eq (host port username password : Str) :
    [':'].intercalate [host, port, username, password] =
      host ++ ':' :: (port ++ ':' :: (username ++ ':' :: password)) := by
  simp [List.intercalate_cons_cons]

/-- A joined string between a trimmed host and a trimmed password is trimmed. -/
theorem trim_joined {host password : Str} (port username : Str) (hne : host ≠ []) (hhost : trim host = host)
    (hpassword : trim password = password) :
    trim (host ++ ':' :: (port ++ ':' :: (username ++ ':' :: password))) =
      host ++ ':' :: (port ++ ':' :: (username ++ ':' :: password)) := by
  obtain ⟨hfirst, -⟩ := trimBy_eq_self.mp hhost
  obtain ⟨-, hlast⟩ := trimBy_eq_self.mp hpassword
  rw [trim, trimBy_eq_self]
  constructor
  · intro c hc
    obtain ⟨d, rest, rfl⟩ := List.exists_cons_of_ne_nil hne
    exact hfirst c (by simpa using hc)
  · intro c hc
    have hend : host ++ ':' :: (port ++ ':' :: (username ++ ':' :: password)) =
        (host ++ ':' :: (port ++ ':' :: username)) ++ [':'] ++ password := by simp
    rw [hend, List.getLast?_append] at hc
    cases hpw : password.getLast? with
    | none =>
      rw [hpw, List.getLast?_concat, Option.none_or] at hc
      cases hc
      rfl
    | some d =>
      rw [hpw, Option.some_or] at hc
      exact hlast c (hpw.trans hc)

/-- Four trimmed fields without the separator, the host not empty, are read back. -/
theorem parse_joined {host port username password : Str} (hhost : host ≠ []) (hport : validPort port = true)
    (htrim : ∀ t ∈ [host, port, username, password], trim t = t)
    (hcolon : ∀ t ∈ [host, port, username, password], ':' ∉ t) :
    parseProxyString ([':'].intercalate [host, port, username, password]) = some [host, port, username, password] := by
  have hsplit : split ':' ([':'].intercalate [host, port, username, password]) = [host, port, username, password] :=
    List.splitOn_intercalate ':' hcolon (by simp)
  simp only [List.mem_cons, List.not_mem_nil, or_false, forall_eq_or_imp, forall_eq] at htrim
  obtain ⟨htrimHost, htrimPort, htrimUser, htrimPass⟩ := htrim
  have hwhole : trim ([':'].intercalate [host, port, username, password]) =
      [':'].intercalate [host, port, username, password] := by
    rw [joined_eq]
    exact trim_joined port username hhost htrimHost htrimPass
  have hne : [':'].intercalate [host, port, username, password] ≠ [] := by simp
  have hok : ¬ (host = [] ∨ validPort port = false) := by simp [hhost, hport]
  simp only [parseProxyString, hwhole, if_neg hne, hsplit, htrimHost, htrimPort, if_neg hok,
    List.getElem?_cons_zero, List.getElem?_cons_succ, Option.getD_some, htrimUser, htrimPass]

/-! ## The port -/

theorem ofInt_port {port : Int} (hport : 1 ≤ port ∧ port ≤ 65535) :
    toIntOrNull (ofInt port) = some port ∧ validPort (ofInt port) = true := by
  obtain ⟨n, rfl⟩ := Int.eq_ofNat_of_zero_le (show 0 ≤ port by omega)
  have hread : toIntOrNull (ofInt (n : Int)) = some (n : Int) := toIntOrNull_ofNat (by omega)
  exact ⟨hread, by simp [validPort, hread, hport]⟩

/-- Printed ports hold digits only. -/
theorem mem_ofInt {port : Int} (hport : 0 ≤ port) {c : Char} (hc : c ∈ ofInt port) : c.isDigit = true := by
  obtain ⟨n, rfl⟩ := Int.eq_ofNat_of_zero_le hport
  exact ascii_ofNat hc

theorem trim_ofInt {port : Int} (hport : 0 ≤ port) : trim (ofInt port) = ofInt port := by
  rw [trim, trimBy_eq_self]
  exact ⟨fun c hc => not_whitespace_digit (mem_ofInt hport (List.mem_of_mem_head? hc)),
    fun c hc => not_whitespace_digit (mem_ofInt hport (List.mem_of_mem_getLast? hc))⟩

/-! ## The two copies -/

section Copies

variable (p : SavedProxy) (hport : 1 ≤ p.port ∧ p.port ≤ 65535) (hhost : p.server ≠ [])
  (huser : trim p.username = p.username) (hpass : trim p.password = p.password)
include hport hhost huser hpass

/-- A string that joins the four fields, the host perhaps trimmed, is read back exactly
when the fields are unambiguous. -/
theorem recovers_joined_iff {text : Str}
    (htext : trim p.server = p.server → text = [':'].intercalate [p.server, ofInt p.port, p.username, p.password]) :
    Recovers (parseProxyString text) p ↔ Unambiguous p := by
  obtain ⟨hread, hvalid⟩ := ofInt_port hport
  constructor
  · rintro ⟨port, hparse, _⟩
    obtain ⟨htrim, hserver, husername, hpassword⟩ := parse_fields hparse
    exact ⟨htrim, hserver, husername, hpassword⟩
  · intro h
    refine ⟨ofInt p.port, ?_, hread⟩
    rw [htext h.trimmed]
    apply parse_joined hhost hvalid
    · simp [h.trimmed, huser, hpass, trim_ofInt (show 0 ≤ p.port by omega)]
    · have hport : ':' ∉ ofInt p.port := fun hc => absurd (mem_ofInt (by omega) hc) (by decide)
      simp [h.server, h.username, h.password, hport]

/-- **Connection string.** What either sheet copies is parsed back into the same fields
exactly when the host is trimmed and no text field holds a `:`. -/
theorem copies_recovered_iff :
    (Recovers (parseProxyString (copyProxyString (ProxyForm.load p))) p ↔ Unambiguous p) ∧
      (Recovers (parseProxyString (copyRow p)) p ↔ Unambiguous p) := by
  constructor
  · apply recovers_joined_iff p hport hhost huser hpass
    intro htrim
    have hne : ¬ (trim p.server = [] ∧ trim (ofInt p.port) = []) := by simp [htrim, hhost]
    have hcopy : copyProxyString (ProxyForm.load p) =
        [':'].intercalate [trim p.server, trim (ofInt p.port), trim p.username, trim p.password] := if_neg hne
    rw [hcopy, htrim, trim_ofInt (show 0 ≤ p.port by omega), huser, hpass]
  · apply recovers_joined_iff p hport hhost huser hpass
    intro _
    rw [copyRow, joined_eq]

end Copies

/-- A profile with plain credentials. -/
theorem copies_recovered_plain :
    (Recovers (parseProxyString (copyProxyString (ProxyForm.load ⟨"h".toList, 1080, "u".toList, "p".toList⟩)))
        ⟨"h".toList, 1080, "u".toList, "p".toList⟩ ↔ Unambiguous ⟨"h".toList, 1080, "u".toList, "p".toList⟩) ∧
      (Recovers (parseProxyString (copyRow ⟨"h".toList, 1080, "u".toList, "p".toList⟩))
        ⟨"h".toList, 1080, "u".toList, "p".toList⟩ ↔ Unambiguous ⟨"h".toList, 1080, "u".toList, "p".toList⟩) :=
  copies_recovered_iff _ (by decide) (by decide) (by decide +kernel) (by decide +kernel)

/-- A password that holds a `:` is cut there. -/
theorem colon_truncates :
    parseProxyString (copyProxyString (ProxyForm.load ⟨"h".toList, 1080, "u".toList, "p:q".toList⟩)) =
        some ["h".toList, "1080".toList, "u".toList, "p".toList] ∧
      parseProxyString (copyRow ⟨"h".toList, 1080, "u".toList, "p:q".toList⟩) =
        some ["h".toList, "1080".toList, "u".toList, "p".toList] ∧
      trim "u".toList = "u".toList ∧ trim "p:q".toList = "p:q".toList ∧
      ¬ Recovers (parseProxyString (copyProxyString (ProxyForm.load ⟨"h".toList, 1080, "u".toList, "p:q".toList⟩)))
        ⟨"h".toList, 1080, "u".toList, "p:q".toList⟩ ∧
      ¬ Recovers (parseProxyString (copyRow ⟨"h".toList, 1080, "u".toList, "p:q".toList⟩))
        ⟨"h".toList, 1080, "u".toList, "p:q".toList⟩ := by
  refine ⟨by decide +kernel, by decide +kernel, by decide +kernel, by decide +kernel, ?_, ?_⟩
  · rintro ⟨port, hparse, _⟩
    exact (parse_fields hparse).2.2.2 (by decide)
  · rintro ⟨port, hparse, _⟩
    exact (parse_fields hparse).2.2.2 (by decide)

end KiloProxy.Ui
