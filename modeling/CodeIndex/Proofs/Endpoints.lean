import CodeIndex.Provider.Ollama
import Mathlib.Data.List.TakeWhile

namespace CodeIndex

/-- What is dropped from the front ends where something has to stay. -/
theorem dropWhile_append_of_head {p : Char → Bool} (t : Text) {rest : Text}
    (h : ∀ c ∈ rest.head?, ¬ p c) : (t ++ rest).dropWhile p = t.dropWhile p ++ rest := by
  rw [List.dropWhile_append]
  split
  · rename_i hnone
    rw [List.isEmpty_iff.mp hnone, List.nil_append]
    cases rest with
    | nil => rfl
    | cons c rest => exact List.dropWhile_cons_of_neg (h c rfl)
  · rfl

namespace Url

/-- A character that ends neither a URL nor the part of it with the host. -/
def IsPlain (c : Char) : Prop :=
  0x20 < c.toNat ∧ c ≠ '/' ∧ c ≠ '\\' ∧ c ≠ '?' ∧ c ≠ '#' ∧ c ≠ '@'

/-- A host as it is written: a name without a colon, or an address in brackets. -/
structure IsHost (t : Text) : Prop where
  nonempty : t ≠ []
  plain : ∀ c ∈ t, IsPlain c
  colons : (':' ∉ t ∧ '[' ∉ t) ∨ ∃ inner, t = '[' :: inner ++ [']'] ∧ ']' ∉ inner

/-- A scheme as it is written. -/
structure IsScheme (t : Text) : Prop where
  first : ∃ c cs, t = c :: cs ∧ c.isAlpha
  chars : ∀ c ∈ t, isSchemeChar c

/-- The port that is connected to. -/
def portInUse (u : Url) : Option Nat := u.port.or (defaultPort u.scheme)

theorem portInUse_withPort (u : Url) (n : Nat) : (u.withPort n).portInUse = some n := by
  unfold withPort portInUse
  dsimp only
  split
  · rwa [Option.none_or]
  · rfl

/-- Nothing, or something behind a slash. -/
def IsPath (t : Text) : Prop := ∀ c ∈ t.head?, c = '/'

theorem IsPath.of_front {t path : Text} (h : IsPath path) (hfront : t <+: path) : IsPath t := by
  obtain ⟨rest, rfl⟩ := hfront
  cases t with
  | nil => exact fun c hc => by cases hc
  | cons c t => exact h

theorem splitPort_name {t : Text} (hcolon : ':' ∉ t) (hbracket : '[' ∉ t) (rest : Text) :
    splitPort false (t ++ rest) = (t ++ (splitPort false rest).1, (splitPort false rest).2) := by
  induction t with
  | nil => rfl
  | cons c t ih =>
    simp only [List.mem_cons, not_or] at hcolon hbracket
    have hc : ¬ c = ':' := fun h => hcolon.1 h.symm
    have hb : ¬ c = '[' := fun h => hbracket.1 h.symm
    have ih := ih hcolon.2 hbracket.2
    rw [List.cons_append, splitPort]
    · simp [hb, ih]
    · exact hc

theorem splitPort_bracketed {t : Text} (hbracket : ']' ∉ t) (rest : Text) :
    splitPort true (t ++ ']' :: rest) =
      (t ++ ']' :: (splitPort false rest).1, (splitPort false rest).2) := by
  induction t with
  | nil => simp [splitPort]
  | cons c t ih =>
    simp only [List.mem_cons, not_or] at hbracket
    have ih := ih hbracket.2
    by_cases hc : c = ':'
    · subst hc
      simp [splitPort, ih]
    · rw [List.cons_append, splitPort]
      · simp [ih, Ne.symm hbracket.1]
      · exact hc

theorem IsHost.splitPort {t : Text} (h : IsHost t) (rest : Text) :
    Url.splitPort false (t ++ rest) =
      (t ++ (Url.splitPort false rest).1, (Url.splitPort false rest).2) := by
  rcases h.colons with ⟨hcolon, hbracket⟩ | ⟨inner, rfl, hinner⟩
  · exact splitPort_name hcolon hbracket rest
  · have hinside := splitPort_bracketed hinner rest
    simp [Url.splitPort, hinside]

/-- What cleaning leaves of the end of a URL. -/
def cleanEnd (t : Text) : Text :=
  (t.reverse.dropWhile fun c => decide (c.toNat ≤ 0x20)).reverse.filter
    fun c => c != '\t' && c != '\n' && c != '\r'

/-- Nothing is cleaned from what holds no blanks, whatever follows it. -/
theorem clean_append {t : Text} (hne : t ≠ []) (hplain : ∀ c ∈ t, 0x20 < c.toNat) (rest : Text) :
    clean (t ++ rest) = t ++ cleanEnd rest := by
  have hedge : ∀ c ∈ t, ¬ decide (c.toNat ≤ 0x20) = true := fun c hc => by
    simpa using hplain c hc
  have hfront : (t ++ rest).dropWhile (fun c => decide (c.toNat ≤ 0x20)) = t ++ rest := by
    cases t with
    | nil => exact absurd rfl hne
    | cons c t => exact List.dropWhile_cons_of_neg (hedge c List.mem_cons_self)
  have hback (c : Char) (hc : c ∈ t.reverse.head?) : ¬ decide (c.toNat ≤ 0x20) = true :=
    hedge c (List.mem_reverse.mp (List.mem_of_head? hc))
  have hinner : ∀ c ∈ t, (c != '\t' && c != '\n' && c != '\r') = true := by
    intro c hc
    have hlt := hplain c hc
    have hne (d : Char) (hd : d.toNat ≤ 0x20) : (c != d) = true := by
      simp only [bne_iff_ne, ne_eq]
      rintro rfl
      omega
    rw [hne _ (by decide), hne _ (by decide), hne _ (by decide)]
    rfl
  unfold clean cleanEnd
  dsimp only
  rw [hfront, List.reverse_append, dropWhile_append_of_head _ hback, List.reverse_append,
    List.reverse_reverse, List.filter_append, List.filter_eq_self.mpr hinner]

theorem clean_path {t : Text} (hne : t ≠ []) (hplain : ∀ c ∈ t, 0x20 < c.toNat) {path : Text}
    (hpath : IsPath path) : ∃ path', IsPath path' ∧ clean (t ++ path) = t ++ path' := by
  cases path with
  | nil => exact ⟨[], hpath, clean_append hne hplain []⟩
  | cons c path =>
    obtain rfl : c = '/' := hpath c rfl
    have hplain' : ∀ c ∈ t ++ ['/'], 0x20 < c.toNat := by
      intro c hc
      rcases List.mem_append.mp hc with hc | hc
      · exact hplain c hc
      · rw [List.mem_singleton.mp hc]
        decide
    refine ⟨'/' :: cleanEnd path, fun c hc => (Option.some.inj hc).symm, ?_⟩
    simpa using clean_append (by simp) hplain' path

theorem scheme?_append {scheme : Text} (h : IsScheme scheme) (rest : Text) :
    scheme? (scheme ++ ':' :: rest) = some (scheme.map Char.toLower, rest) := by
  obtain ⟨c, cs, rfl, hc⟩ := h.first
  have htake : (c :: cs ++ ':' :: rest).takeWhile isSchemeChar = c :: cs := by
    rw [List.takeWhile_append_of_pos h.chars, List.takeWhile_cons_of_neg (by decide),
      List.append_nil]
  rw [scheme?, htake, List.drop_left]
  simp [hc]

/-- The host of a URL from how it is written. -/
def readHost (scheme host : Text) : Option Text :=
  if isKnown scheme then HostName.ofText? host else HostName.opaqueOf? host

/-- A port as it is written behind a host. -/
def written (port : Option Text) : Text :=
  match port with
  | none => []
  | some digits => ':' :: digits

theorem splitPort_written (port : Option Text) : splitPort false (written port) = ([], port) := by
  cases port <;> simp [written, splitPort]

theorem isPlain_of_isDigit {c : Char} (h : c.isDigit) : IsPlain c := by
  have hbounds : 48 ≤ c.toNat ∧ c.toNat ≤ 57 := by
    simpa [Char.isDigit, UInt32.le_iff_toNat_le] using h
  have hne (d : Char) (hd : d.toNat < 48 ∨ 57 < d.toNat) : c ≠ d := by
    rintro rfl
    omega
  exact ⟨by omega, hne _ (by decide), hne _ (by decide), hne _ (by decide), hne _ (by decide),
    hne _ (by decide)⟩

theorem not_blank_of_isSchemeChar {c : Char} (h : isSchemeChar c) : 0x20 < c.toNat := by
  by_contra hle
  have hnone : ∀ n < 0x21, isSchemeChar (Char.ofNat n) = false := by decide
  have hfalse := hnone c.toNat (by omega)
  rw [Char.ofNat_toNat, h] at hfalse
  contradiction

section
variable {host : Text} {port : Option Text}

theorem plain_address (hhost : IsHost host)
    (hport : ∀ digits ∈ port, ∀ c ∈ digits, c.isDigit) :
    ∀ c ∈ host ++ written port, IsPlain c := by
  intro c hc
  rcases List.mem_append.mp hc with hc | hc
  · exact hhost.plain c hc
  · cases port with
    | none => cases hc
    | some digits =>
      rcases List.mem_cons.mp hc with rfl | hc
      · exact ⟨by decide, by decide, by decide, by decide, by decide, by decide⟩
      · exact isPlain_of_isDigit (hport digits rfl c hc)

theorem takeWhile_authority {t path : Text} (hplain : ∀ c ∈ t, IsPlain c) (hpath : IsPath path)
    (known : Bool) : (t ++ path).takeWhile (fun c => !endsAuthority known c) = t := by
  have hinside : ∀ c ∈ t, (!endsAuthority known c) = true := by
    intro c hc
    obtain ⟨-, hslash, hback, hquestion, hhash, -⟩ := hplain c hc
    simp [endsAuthority, hslash, hback, hquestion, hhash]
  rw [List.takeWhile_append_of_pos hinside]
  cases path with
  | nil => exact List.append_nil t
  | cons c path =>
    rw [hpath c rfl, List.takeWhile_cons_of_neg (by simp [endsAuthority]), List.append_nil]

theorem dropUser_plain {t : Text} (hplain : ∀ c ∈ t, IsPlain c) : dropUser t = t := by
  have hnone : ∀ c ∈ t.reverse, (c != '@') = true := by
    intro c hc
    simpa using (hplain c (List.mem_reverse.mp hc)).2.2.2.2.2
  rw [dropUser, List.takeWhile_eq_self_iff.mpr hnone, List.reverse_reverse]

theorem dropWhile_slashes (hhost : IsHost host) (rest : Text) :
    ('/' :: '/' :: (host ++ rest)).dropWhile (fun c => c == '/' || c == '\\') = host ++ rest := by
  obtain ⟨c, cs, rfl⟩ := List.exists_cons_of_ne_nil hhost.nonempty
  obtain ⟨-, hslash, hback, -⟩ := hhost.plain c List.mem_cons_self
  simp [hslash, hback]

end

/-- What stands before the path of a URL decides on all of it but the path. -/
theorem parse?_address {scheme host path : Text} (hscheme : IsScheme scheme) (hhost : IsHost host)
    (port : Option Text) (hport : ∀ digits ∈ port, ∀ c ∈ digits, c.isDigit) (hpath : IsPath path) :
    ∃ path' query, parse? (scheme ++ "://".toList ++ (host ++ written port) ++ path) =
      if scheme.map Char.toLower = "file".toList then none
      else (readHost (scheme.map Char.toLower) host).bind fun host =>
        (readPort (scheme.map Char.toLower) port).bind fun port =>
          some ⟨scheme.map Char.toLower, host, port, path', query⟩ := by
  have haddress := plain_address hhost hport
  have hplain : ∀ c ∈ scheme ++ "://".toList ++ (host ++ written port), 0x20 < c.toNat := by
    intro c hc
    rcases List.mem_append.mp hc with hc | hc
    · rcases List.mem_append.mp hc with hc | hc
      · exact not_blank_of_isSchemeChar (hscheme.chars c hc)
      · have hcolon : ∀ c ∈ "://".toList, 0x20 < c.toNat := by simp
        exact hcolon c hc
    · exact (haddress c hc).1
  obtain ⟨path', hpath', hclean⟩ := clean_path (by simp) hplain hpath
  have hsplit : scheme ++ "://".toList ++ (host ++ written port) ++ path' =
      scheme ++ ':' :: '/' :: '/' :: (host ++ (written port ++ path')) := by
    simp
  unfold parse?
  rw [hclean, hsplit, scheme?_append hscheme]
  have hsplitPort : splitPort false (host ++ written port) = (host, port) := by
    rw [hhost.splitPort, splitPort_written, List.append_nil]
  have hread (known : Bool) : (host ++ (written port ++ path')).takeWhile
      (fun c => !endsAuthority known c) = host ++ written port := by
    rw [← List.append_assoc, takeWhile_authority haddress hpath']
  simp only [Option.bind_eq_bind, Option.bind_some]
  by_cases hfile : scheme.map Char.toLower = "file".toList
  · simp only [if_pos hfile]
    exact ⟨[], none, rfl⟩
  · simp only [if_neg hfile, readHost]
    cases hknown : isKnown (scheme.map Char.toLower) with
    | true =>
      simp only [if_true, dropWhile_slashes hhost, hread, dropUser_plain haddress, hsplitPort]
      exact ⟨_, _, rfl⟩
    | false =>
      simp only [Bool.false_eq_true, if_false, hread, dropUser_plain haddress, hsplitPort]
      exact ⟨_, _, rfl⟩

theorem readPort_digits (scheme : Text) {digits : Text} (hdigits : ∀ c ∈ digits, c.isDigit)
    (hlimit : Json.natOf digits < portLimit) :
    ∃ port, readPort scheme (some digits) = some port := by
  cases digits with
  | nil => exact ⟨none, rfl⟩
  | cons c digits =>
    have hall : (c :: digits).all Char.isDigit = true := List.all_eq_true.mpr hdigits
    have hbelow : (c :: digits).foldl (fun n c => n * 10 + (c.toNat - 48)) 0 < portLimit := hlimit
    exact ⟨_, if_pos (by rw [hall, decide_eq_true hbelow]; rfl)⟩

end Url

/-- An address of the form `scheme://host:port` with a path behind it, which may be empty. Without
port and path it is a URL. -/
structure Address where
  scheme : Text
  host : Text
  digits : Text
  path : Text
  url : Url
  isScheme : Url.IsScheme scheme
  isHost : Url.IsHost host
  hasPort : digits ≠ []
  isPort : ∀ c ∈ digits, c.isDigit
  fits : Json.natOf digits < Url.portLimit
  isPath : Url.IsPath path
  isUrl : Url.parse? (scheme ++ "://".toList ++ host) = some url

namespace Address

def port (a : Address) : Nat := Json.natOf a.digits

def server (a : Address) : Text := a.scheme ++ "://".toList ++ a.host

def serverWithPort (a : Address) : Text := a.server ++ ':' :: a.digits

def text (a : Address) : Text := a.serverWithPort ++ a.path

/-- The path without the slashes at its end. -/
def trimmedPath (a : Address) : Text := OpenAi.dropSlashes a.path

/-- With its port and any path, an address has the host that it has without them. -/
theorem parse?_serverWithPort (a : Address) {path : Text} (hpath : Url.IsPath path) :
    ∃ u, Url.parse? (a.serverWithPort ++ path) = some u ∧ u.scheme = a.url.scheme ∧
      u.host = a.url.host := by
  obtain ⟨path₁, query₁, hbare⟩ := Url.parse?_address a.isScheme a.isHost none (by simp)
    fun c (hc : c ∈ ([] : Text).head?) => by cases hc
  obtain ⟨path₂, query₂, hfull⟩ := Url.parse?_address a.isScheme a.isHost (some a.digits)
    (by simpa using a.isPort) hpath
  have hurl := a.isUrl
  simp only [Url.written, List.append_nil] at hbare
  rw [hbare] at hurl
  by_cases hfile : a.scheme.map Char.toLower = "file".toList
  · rw [if_pos hfile] at hurl
    cases hurl
  · rw [if_neg hfile] at hurl hfull
    obtain ⟨host, hhost, hrest⟩ := Option.bind_eq_some_iff.mp hurl
    obtain ⟨port, hport⟩ := Url.readPort_digits (a.scheme.map Char.toLower) a.isPort a.fits
    obtain ⟨_, _, hsome⟩ := Option.bind_eq_some_iff.mp hrest
    rw [hhost, hport] at hfull
    rw [← Option.some.inj hsome]
    refine ⟨⟨_, host, port, path₂, query₂⟩, ?_, rfl, rfl⟩
    simpa [serverWithPort, server, Url.written] using hfull

end Address

namespace Ollama

theorem bne_of_not_mem {d : Char} {t : Text} (h : d ∉ t) : ∀ c ∈ t.reverse, (c != d) = true := by
  intro c hc
  rw [bne_iff_ne]
  rintro rfl
  exact h (List.mem_reverse.mp hc)

theorem splitLastColon_append {before after : Text} (h : ':' ∉ after) :
    splitLastColon (before ++ ':' :: after) = some (before, after) := by
  have htake : ((before ++ ':' :: after).reverse.takeWhile (· != ':')).reverse = after := by
    rw [List.reverse_append, List.reverse_cons, List.append_assoc,
      List.takeWhile_append_of_pos (bne_of_not_mem h)]
    simp
  unfold splitLastColon
  dsimp only
  rw [htake, if_neg (by simp; omega)]
  have hlength : (before ++ ':' :: after).length - after.length - 1 = before.length := by
    simp only [List.length_append, List.length_cons]
    omega
  rw [hlength, List.take_left]

theorem splitLastColon_eq_none {t : Text} (h : ':' ∉ t) : splitLastColon t = none := by
  unfold splitLastColon
  dsimp only
  rw [List.takeWhile_eq_self_iff.mpr (bne_of_not_mem h), List.reverse_reverse, if_pos rfl]

theorem exists_last_colon {t : Text} (h : ':' ∈ t) :
    ∃ before after, t = before ++ ':' :: after ∧ ':' ∉ after := by
  obtain ⟨after, before, hsplit, hnone⟩ := List.eq_append_cons_of_mem (List.mem_reverse.mpr h)
  refine ⟨before.reverse, after.reverse, ?_, by simpa using hnone⟩
  rw [← List.reverse_reverse t, hsplit]
  simp

theorem dropSlashes_append {t : Text} (hlast : ∀ c ∈ t.getLast?, c ≠ '/') (rest : Text) :
    OpenAi.dropSlashes (t ++ rest) = t ++ OpenAi.dropSlashes rest := by
  have hhead : ∀ c ∈ t.reverse.head?, ¬ (c == '/') = true := by
    intro c hc
    rw [List.head?_reverse] at hc
    simpa using hlast c hc
  rw [OpenAi.dropSlashes, OpenAi.dropSlashes, List.reverse_append, dropWhile_append_of_head _ hhead,
    List.reverse_append, List.reverse_reverse]

theorem dropSlashes_front (t : Text) : OpenAi.dropSlashes t <+: t := by
  rw [OpenAi.dropSlashes, ← List.reverse_suffix, List.reverse_reverse]
  exact List.dropWhile_suffix _

/-- The number behind the last colon. -/
def portBehind (t : Text) : Option Nat :=
  (splitLastColon t).bind fun parts => Config.numberBelow? Url.portLimit parts.2

theorem numberBelow?_unsigned {c : Char} (hc : c.isDigit) (t : Text) (bound : Nat) :
    Config.numberBelow? bound (c :: t) =
      if (c :: t).all Char.isDigit && Json.natOf (c :: t) < bound then some (Json.natOf (c :: t))
      else none := by
  unfold Config.numberBelow?
  dsimp only
  split
  · rename_i heq
    rw [(List.cons.inj heq).1] at hc
    exact absurd hc (by decide)
  · rfl

section
variable {digits : Text} (hne : digits ≠ []) (hdigits : ∀ c ∈ digits, c.isDigit)
include hne hdigits

theorem numberBelow?_digits {bound : Nat} (hbound : Json.natOf digits < bound) :
    Config.numberBelow? bound digits = some (Json.natOf digits) := by
  obtain ⟨c, cs, rfl⟩ := List.exists_cons_of_ne_nil hne
  have hall : (c :: cs).all Char.isDigit = true := List.all_eq_true.mpr hdigits
  rw [numberBelow?_unsigned (hdigits c List.mem_cons_self), hall, if_pos (by simpa using hbound)]

theorem numberBelow?_slash (bound : Nat) (path : Text) :
    Config.numberBelow? bound (digits ++ '/' :: path) = none := by
  obtain ⟨c, cs, rfl⟩ := List.exists_cons_of_ne_nil hne
  have hslash : (c :: cs ++ '/' :: path).all Char.isDigit = false :=
    List.all_eq_false.mpr ⟨'/', by simp, by decide⟩
  rw [List.cons_append] at hslash ⊢
  rw [numberBelow?_unsigned (hdigits c List.mem_cons_self), hslash]
  rfl

end

theorem dropSlashes_text (a : Address) :
    OpenAi.dropSlashes a.text = a.serverWithPort ++ a.trimmedPath := by
  refine dropSlashes_append (fun c hc => ?_) a.path
  have hdigits : c ∈ a.digits := by
    rw [Address.serverWithPort, List.append_cons, List.getLast?_append,
      List.getLast?_eq_some_getLast a.hasPort, Option.some_or] at hc
    exact Option.mem_some_iff.mp hc ▸ List.getLast_mem a.hasPort
  rintro rfl
  exact absurd (a.isPort '/' hdigits) (by decide)

/-- Slashes behind a port are dropped. Any other path takes the place of the port: it is the number
behind the last colon of the path, or else the usual one. -/
theorem hostAndPort_text (a : Address) :
    a.trimmedPath = [] ∧ hostAndPort a.text = (a.server, a.port) ∨
    a.trimmedPath ≠ [] ∧ ∃ path, Url.IsPath path ∧ hostAndPort a.text =
      (a.serverWithPort ++ path, (portBehind a.trimmedPath).getD usualPort) := by
  have hisPath : Url.IsPath a.trimmedPath := a.isPath.of_front (dropSlashes_front a.path)
  have hcolons : ':' ∉ a.digits := fun h => absurd (a.isPort ':' h) (by decide)
  unfold hostAndPort
  dsimp only
  rw [dropSlashes_text]
  by_cases hcolon : ':' ∈ a.trimmedPath
  · obtain ⟨before, after, hsplit, hnone⟩ := exists_last_colon hcolon
    have hbefore : Url.IsPath before := hisPath.of_front ⟨':' :: after, hsplit.symm⟩
    refine .inr ⟨List.ne_nil_of_mem hcolon, ?_⟩
    rw [portBehind, hsplit, splitLastColon_append hnone, Option.bind_some, ← List.append_assoc,
      splitLastColon_append hnone]
    dsimp only
    cases Config.numberBelow? Url.portLimit after with
    | some n => exact ⟨before, hbefore, rfl⟩
    | none => exact ⟨before ++ ':' :: after, hsplit ▸ hisPath, by rw [List.append_assoc]; rfl⟩
  · have hsplit : splitLastColon (a.serverWithPort ++ a.trimmedPath) =
        some (a.server, a.digits ++ a.trimmedPath) := by
      rw [Address.serverWithPort, List.append_assoc, List.cons_append]
      exact splitLastColon_append (by simp [hcolons, hcolon])
    rw [hsplit]
    dsimp only
    cases htrimmed : a.trimmedPath with
    | nil =>
      rw [List.append_nil, numberBelow?_digits a.hasPort a.isPort a.fits]
      exact .inl ⟨rfl, rfl⟩
    | cons c path =>
      obtain rfl : c = '/' := hisPath c (by rw [htrimmed]; rfl)
      rw [numberBelow?_slash a.hasPort a.isPort, portBehind,
        splitLastColon_eq_none (htrimmed ▸ hcolon)]
      exact .inr ⟨List.cons_ne_nil _ _, '/' :: path, htrimmed ▸ hisPath, rfl⟩

/-- An address with a port leads to its host, and to its port exactly if nothing but slashes follows
the port, or if the number behind the last colon of what follows, or else the usual port, is the
same one. -/
theorem port_used_iff (a : Address) (model : String) :
    ∃ p, ofBaseUrl? (String.ofList a.text) model = some p ∧ p.endpoint.scheme = a.url.scheme ∧
      p.endpoint.host = a.url.host ∧
      (p.endpoint.portInUse = some a.port ↔
        a.trimmedPath = [] ∨ (portBehind a.trimmedPath).getD usualPort = a.port) := by
  have hendpoint {host : Text} {port : Nat} {u : Url}
      (hsplit : hostAndPort a.text = (host, port)) (hparse : Url.parse? host = some u) :
      ofBaseUrl? (String.ofList a.text) model = some ⟨u.withPort port, model⟩ := by
    simp [ofBaseUrl?, endpoint?, hsplit, hparse]
  rcases hostAndPort_text a with ⟨hbare, hsplit⟩ | ⟨hpath, path, hisPath, hsplit⟩
  · exact ⟨_, hendpoint hsplit a.isUrl, rfl, rfl,
      iff_of_true (Url.portInUse_withPort _ _) (.inl hbare)⟩
  · obtain ⟨u, hparse, hscheme, hhost⟩ := a.parse?_serverWithPort hisPath
    refine ⟨_, hendpoint hsplit hparse, hscheme, hhost, ?_⟩
    rw [Url.portInUse_withPort, Option.some.injEq]
    simp [hpath]

/-- A server on this machine, with a path behind a slash. -/
def localAddress (rest : Text) : Address where
  scheme := "http".toList
  host := "localhost".toList
  digits := "8080".toList
  path := '/' :: rest
  url := ⟨"http".toList, "localhost".toList, none, ['/'], none⟩
  isScheme := ⟨⟨'h', "ttp".toList, rfl, rfl⟩, List.all_eq_true.mp rfl⟩
  isHost := ⟨by decide, by simp [Url.IsPlain], .inl (by decide)⟩
  hasPort := by decide
  isPort := List.all_eq_true.mp rfl
  fits := by decide
  isPath _ hc := (Option.some.inj hc).symm
  isUrl := by decide +kernel

theorem port_used_iff_slashes : ∃ a : Address, a.text = "http://localhost:8080///".toList ∧
    ∃ p, ofBaseUrl? (String.ofList a.text) "m" = some p ∧
      p.endpoint.host = "localhost".toList ∧ p.endpoint.portInUse = some 8080 := by
  obtain ⟨p, hp, -, hhost, hport⟩ := port_used_iff (localAddress "//".toList) "m"
  exact ⟨_, by decide, p, hp, hhost, hport.mpr (.inl (by decide))⟩

/-- With a path the port is not read, and the usual one takes its place. -/
theorem port_overridden : ∃ a : Address, a.text = "http://localhost:8080/api".toList ∧
    a.port = 8080 ∧ ∃ p, ofBaseUrl? (String.ofList a.text) "m" = some p ∧
      p.endpoint.host = "localhost".toList ∧ p.endpoint.portInUse = some 11434 := by
  refine ⟨localAddress "api".toList, by decide, by decide,
    ⟨⟨"http".toList, "localhost".toList, some 11434, "/api".toList, none⟩, "m"⟩, ?_, rfl, rfl⟩
  rw [ofBaseUrl?, String.toList_ofList]
  decide +kernel

end Ollama

end CodeIndex
