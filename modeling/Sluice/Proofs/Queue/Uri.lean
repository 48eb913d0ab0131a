import Sluice.Proofs.Config.Address
import Sluice.Queue.Uri

/-
  Which settings share a URI. A text that is cut at a separator is cut at the same place whenever
  the parts on one side hold the separator equally often (`Text.cut_front`, `Text.cut_rear`). The
  last slash of a URI stands before the virtual host, which has none left, and the last colon before
  it stands before the digits of the port; so two URIs are the same just when the port, the escaped
  virtual host and the text of credentials and host are (`uri_eq_iff`). The text of credentials and
  host is cut at an at sign and at a colon, which may also stand in a host and in a user; and a
  virtual host may hold what a slash is escaped with, because nothing but slashes is escaped. These
  are the only ways in which different settings come to share a URI (`uri_tells_apart`).
-/

namespace Sluice

/-! ## Texts around a separator -/

namespace Text

variable {α : Type} [DecidableEq α] {sep : α} {front front' rear rear' : List α}

theorem nil_of_count {more rest : List α} (h : sep :: rear = more ++ rest)
    (hcount : front.count sep = (front ++ more).count sep) : more = [] := by
  cases more with
  | nil => rfl
  | cons a more =>
    obtain rfl : sep = a := (List.cons.inj h).1
    rw [List.count_append, List.count_cons_self] at hcount
    omega

/-- Two cuts of a text at a separator are one if the parts in front hold it equally often. -/
theorem cut_front (h : front ++ sep :: rear = front' ++ sep :: rear')
    (hcount : front.count sep = front'.count sep) : front = front' ∧ rear = rear' := by
  obtain ⟨more, rfl, hmore⟩ | ⟨more, rfl, hmore⟩ := List.append_eq_append_iff.mp h
  · obtain rfl := nil_of_count hmore hcount
    exact ⟨(List.append_nil front).symm, (List.cons.inj hmore).2⟩
  · obtain rfl := nil_of_count hmore hcount.symm
    exact ⟨List.append_nil front', (List.cons.inj hmore).2.symm⟩

/-- Two cuts of a text at a separator are one if the parts behind hold it equally often. -/
theorem cut_rear (h : front ++ sep :: rear = front' ++ sep :: rear')
    (hcount : rear.count sep = rear'.count sep) : front = front' ∧ rear = rear' := by
  refine cut_front h ?_
  have hall := congrArg (List.count sep) h
  simp only [List.count_append, List.count_cons_self] at hall
  omega

/-- The last separator of a text is in one place only. -/
theorem cut_last (h : front ++ sep :: rear = front' ++ sep :: rear') (hrear : sep ∉ rear)
    (hrear' : sep ∉ rear') : front = front' ∧ rear = rear' := by
  refine cut_rear h ?_
  rw [List.count_eq_zero_of_not_mem hrear, List.count_eq_zero_of_not_mem hrear']

/-- A text in front that may be missing together with its separator. -/
def fronted (sep : α) (front : Option (List α)) : List α :=
  (front.map fun cs => cs ++ [sep]).getD []

/-- Whether there is a text in front, and which, is decided by how often the parts behind hold the
separator. -/
theorem fronted_inj {front front' : Option (List α)}
    (h : fronted sep front ++ rear = fronted sep front' ++ rear')
    (hcount : rear.count sep = rear'.count sep) : front = front' ∧ rear = rear' := by
  have hall := congrArg (List.count sep) h
  rw [List.count_append, List.count_append] at hall
  have hsame : (fronted sep front).count sep = (fronted sep front').count sep := by omega
  have hsome (cs : List α) : 0 < (fronted sep (some cs)).count sep :=
    List.count_pos_iff.mpr List.mem_concat_self
  cases front with
  | none =>
    cases front' with
    | none => exact ⟨rfl, h⟩
    | some cs' => exact absurd hsame (Nat.ne_of_lt (hsome cs'))
  | some cs =>
    cases front' with
    | none => exact absurd hsame.symm (Nat.ne_of_lt (hsome cs))
    | some cs' =>
      have hcut : cs ++ sep :: rear = cs' ++ sep :: rear' := by
        simpa only [fronted, Option.map_some, Option.getD_some, List.append_assoc,
          List.singleton_append] using h
      obtain ⟨rfl, hrear⟩ := cut_rear hcut hcount
      exact ⟨rfl, hrear⟩

end Text

namespace QueueConfig

open Text

/-! ## Escaped slashes -/

/-- What a slash is escaped with. -/
def slashEscape : List Char := ['%', '2', 'f']

/-- The characters of a text with its slashes escaped. -/
def escaped (cs : List Char) : List Char :=
  cs.flatMap fun c => if c = '/' then slashEscape else [c]

theorem escapeSlashes_toList (s : String) : (escapeSlashes s).toList = escaped s.toList :=
  String.toList_ofList

variable {cs ds : List Char} {c d : Char}

theorem escaped_slash (cs : List Char) : escaped ('/' :: cs) = slashEscape ++ escaped cs := rfl

theorem escaped_cons (h : c ≠ '/') (cs : List Char) : escaped (c :: cs) = c :: escaped cs := by
  unfold escaped
  rw [List.flatMap_cons, if_neg h]
  rfl

theorem escaped_ne_nil (c : Char) (cs : List Char) : escaped (c :: cs) ≠ [] := by
  by_cases h : c = '/'
  · subst h
    exact List.cons_ne_nil _ _
  · rw [escaped_cons h]
    exact List.cons_ne_nil _ _

theorem slash_not_mem_escaped (cs : List Char) : '/' ∉ escaped cs := by
  intro hmem
  obtain ⟨c, -, hc⟩ := List.mem_flatMap.mp hmem
  by_cases h : c = '/'
  · rw [if_pos h] at hc
    exact absurd hc (by decide)
  · rw [if_neg h] at hc
    exact h (List.mem_singleton.mp hc).symm

/-- A character that no escape begins with stands for itself. -/
theorem cons_of_escaped {rest : List Char} (hc : c ≠ '%') (h : escaped cs = c :: rest) :
    ∃ cs', cs = c :: cs' ∧ escaped cs' = rest := by
  cases cs with
  | nil => exact nomatch h
  | cons d cs =>
    by_cases hd : d = '/'
    · subst hd
      exact absurd (List.cons.inj h).1.symm hc
    · rw [escaped_cons hd] at h
      obtain ⟨rfl, hrest⟩ := List.cons.inj h
      exact ⟨cs, rfl, hrest⟩

/-- What is not a slash and is written like one holds the escape. -/
theorem escape_of_slash (hd : d ≠ '/') (h : escaped ('/' :: cs) = escaped (d :: ds)) :
    slashEscape <:+: d :: ds := by
  rw [escaped_slash, escaped_cons hd] at h
  obtain ⟨rfl, hrest⟩ := List.cons.inj h
  have htwo : escaped ds = '2' :: 'f' :: escaped cs := hrest.symm
  obtain ⟨ds₁, rfl, hf⟩ := cons_of_escaped (by decide) htwo
  obtain ⟨ds₂, rfl, -⟩ := cons_of_escaped (by decide) hf
  exact (List.prefix_append slashEscape ds₂).isInfix

/-- Texts that do not hold the escape are read off their escaped forms. -/
theorem escaped_inj (hc : ¬ slashEscape <:+: cs) (hd : ¬ slashEscape <:+: ds)
    (h : escaped cs = escaped ds) : cs = ds := by
  induction cs generalizing ds with
  | nil =>
    cases ds with
    | nil => rfl
    | cons d ds => exact absurd h.symm (escaped_ne_nil d ds)
  | cons c cs ih =>
    cases ds with
    | nil => exact absurd h (escaped_ne_nil c cs)
    | cons d ds =>
      have hcs : ¬ slashEscape <:+: cs := mt List.infix_cons hc
      have hds : ¬ slashEscape <:+: ds := mt List.infix_cons hd
      by_cases hslash : c = '/'
      · subst hslash
        by_cases hslash' : d = '/'
        · subst hslash'
          rw [ih hcs hds (List.append_cancel_left h)]
        · exact absurd (escape_of_slash hslash' h) hd
      · by_cases hslash' : d = '/'
        · subst hslash'
          exact absurd (escape_of_slash hslash h.symm) hc
        · rw [escaped_cons hslash, escaped_cons hslash'] at h
          obtain ⟨rfl, hrest⟩ := List.cons.inj h
          rw [ih hcs hds hrest]

/-! ## Credentials and hosts -/

/-- Who connects: a user, and a password where one is given. A password alone does not count. -/
def login (c : QueueConfig) : Option (String × Option String) :=
  c.user.map fun user => (user, c.password)

/-- The port that is connected to. -/
def port (c : QueueConfig) : UInt16 :=
  c.host.portOr brokerPort

/-- What stands between the scheme and the port. -/
def authority (c : QueueConfig) : String :=
  c.credentials ++ c.host.host

/-- The colons in the user. -/
def colons (c : QueueConfig) : Nat :=
  (c.user.getD "").toList.count ':'

/-- The at signs in the host. -/
def atSigns (c : QueueConfig) : Nat :=
  c.host.host.toList.count '@'

/-- How a user is written, with the password. -/
def written : String × Option String → List Char
  | (user, some password) => user.toList ++ ':' :: password.toList
  | (user, none) => user.toList

theorem credentials_toList (c : QueueConfig) :
    c.credentials.toList = fronted '@' (c.login.map written) := by
  unfold credentials login
  cases c.user with
  | none => rfl
  | some user =>
    cases c.password with
    | none => exact String.toList_append
    | some password => simp [fronted, written]

/-- Users with equally many colons are read off what is written for them, and so are their
passwords. -/
theorem written_inj {l l' : String × Option String} (h : written l = written l')
    (hcolons : l.1.toList.count ':' = l'.1.toList.count ':') : l = l' := by
  obtain ⟨user, password⟩ := l
  obtain ⟨user', password'⟩ := l'
  have hcount := congrArg (List.count ':') h
  cases password with
  | none =>
    cases password' with
    | none => rw [String.toList_inj.mp h]
    | some password' =>
      simp only [written, List.count_append, List.count_cons_self] at hcount hcolons
      omega
  | some password =>
    cases password' with
    | none =>
      simp only [written, List.count_append, List.count_cons_self] at hcount hcolons
      omega
    | some password' =>
      obtain ⟨huser, hpassword⟩ := cut_front h hcolons
      rw [String.toList_inj.mp huser, String.toList_inj.mp hpassword]

variable {c d : QueueConfig}

/-- Hosts with equally many at signs are read off the authority, and so is what is written for the
users. -/
theorem authority_inj (h : c.authority = d.authority) (hats : c.atSigns = d.atSigns) :
    c.login.map written = d.login.map written ∧ c.host.host = d.host.host := by
  have htext := congrArg String.toList h
  unfold authority at htext
  rw [String.toList_append, String.toList_append, credentials_toList, credentials_toList] at htext
  obtain ⟨hwritten, hhost⟩ := fronted_inj htext hats
  exact ⟨hwritten, String.toList_inj.mp hhost⟩

theorem login_inj (h : c.login.map written = d.login.map written) (hcolons : c.colons = d.colons) :
    c.login = d.login := by
  unfold login at h ⊢
  unfold colons at hcolons
  cases hc : c.user with
  | none =>
    rw [hc] at h
    rw [Option.map_eq_none_iff.mp (Option.map_eq_none_iff.mp h.symm)]
    rfl
  | some user =>
    rw [hc] at h hcolons
    cases hd : d.user with
    | none =>
      rw [hd] at h
      exact nomatch h
    | some user' =>
      rw [hd] at h hcolons
      exact congrArg some (written_inj (Option.some.inj h) hcolons)

/-! ## The URI -/

/-- The digits of a port determine it. -/
theorem toDigits_inj {p q : UInt16} (h : Nat.toDigits 10 p.toNat = Nat.toDigits 10 q.toNat) :
    p = q := by
  have hvalue := congrArg (Nat.ofDigitChars 10 · 0) h
  rw [(digits_toDigits _).value, (digits_toDigits _).value] at hvalue
  exact UInt16.toNat_inj.mp hvalue

theorem uri_toList (h : c.brokerUri = none) :
    c.uri.toList = (("amqp://".toList ++ c.authority.toList) ++ ':' ::
      Nat.toDigits 10 c.port.toNat) ++ '/' :: escaped (c.virtualHost.getD "").toList := by
  unfold uri authority port
  rw [h, Option.getD_none]
  simp only [String.toList_append, escapeSlashes_toList, Nat.toString_eq_ofList_toDigits,
    String.toList_ofList, List.append_assoc]
  rfl

/-- Two URIs made of settings are the same just when their parts are. -/
theorem uri_eq_iff (hc : c.brokerUri = none) (hd : d.brokerUri = none) :
    c.uri = d.uri ↔ c.authority = d.authority ∧ c.port = d.port ∧
      escapeSlashes (c.virtualHost.getD "") = escapeSlashes (d.virtualHost.getD "") := by
  have hdigits (p : UInt16) : ':' ∉ Nat.toDigits 10 p.toNat :=
    (Numeral.plain (digits_toDigits p.toNat)).no_colon
  rw [← String.toList_inj, uri_toList hc, uri_toList hd, ← @String.toList_inj c.authority,
    ← @String.toList_inj (escapeSlashes _), escapeSlashes_toList, escapeSlashes_toList]
  constructor
  · intro h
    obtain ⟨hfront, hhost⟩ :=
      cut_last h (slash_not_mem_escaped _) (slash_not_mem_escaped _)
    obtain ⟨hauthority, hport⟩ := cut_last hfront (hdigits c.port) (hdigits d.port)
    exact ⟨List.append_cancel_left hauthority, toDigits_inj hport, hhost⟩
  · rintro ⟨hauthority, hport, hhost⟩
    rw [hauthority, hport, hhost]

/-- Whether the virtual host holds what a slash is escaped with. -/
def HoldsEscape (c : QueueConfig) : Prop :=
  slashEscape <:+: (c.virtualHost.getD "").toList

/-- In a valid configuration no setting is blank that must not be. -/
theorem named_of_validate (h : c.validate = .ok ()) {what value : String}
    (hmem : (what, some value) ∈ c.named) : isBlankText value = false := by
  unfold validate at h
  simp only [bind, Except.bind, pure, Except.pure, throw, throwThe, MonadExceptOf.throw] at h
  -- a fault that is looked for before is found, or a blank setting is, or there is none
  split at h
  · exact nomatch h
  · cases hfind : c.named.find? fun s => isBlankSetting s.2 with
    | none =>
      have hnone := List.find?_eq_none.mp hfind _ hmem
      exact Bool.eq_false_iff.mpr hnone
    | some s =>
      rw [hfind] at h
      exact nomatch h

theorem getD_inj {v v' : Option String} (hv : v ≠ some "") (hv' : v' ≠ some "")
    (h : v.getD "" = v'.getD "") : v = v' := by
  cases v with
  | none =>
    cases v' with
    | none => rfl
    | some s' => exact absurd (congrArg some h.symm) hv'
  | some s =>
    cases v' with
    | none => exact absurd (congrArg some h) hv
    | some s' => exact congrArg some h

/-- A virtual host that is left out is not the same as one that is given, for that is not blank. -/
theorem virtualHost_inj (hc : c.validate = .ok ()) (hd : d.validate = .ok ())
    (h : c.virtualHost.getD "" = d.virtualHost.getD "") : c.virtualHost = d.virtualHost := by
  have hgiven {e : QueueConfig} (he : e.validate = .ok ()) : e.virtualHost ≠ some "" := by
    intro hv
    have hmem : ("Virtual host name", some "") ∈ e.named := by simp [named, hv]
    exact nomatch named_of_validate he hmem
  exact getD_inj (hgiven hc) (hgiven hd) h

/-- Which settings the URI tells apart, of two valid configurations that hold no URI of their own.
Two URIs are the same just when three texts are: credentials with host, port, and escaped virtual
host. So another port always makes another URI. Another virtual host does if neither holds the
escape of a slash, another host if both hold equally many at signs, and another user or password if
moreover both users hold equally many colons. -/
theorem uri_tells_apart (hc : c.validate = .ok ()) (hd : d.validate = .ok ())
    (hcu : c.brokerUri = none) (hdu : d.brokerUri = none) :
    (c.uri = d.uri ↔ c.authority = d.authority ∧ c.port = d.port ∧
        escapeSlashes (c.virtualHost.getD "") = escapeSlashes (d.virtualHost.getD "")) ∧
      (c.port ≠ d.port → c.uri ≠ d.uri) ∧
      (c.virtualHost ≠ d.virtualHost → ¬ c.HoldsEscape → ¬ d.HoldsEscape → c.uri ≠ d.uri) ∧
      (c.host.host ≠ d.host.host → c.atSigns = d.atSigns → c.uri ≠ d.uri) ∧
      (c.login ≠ d.login → c.atSigns = d.atSigns → c.colons = d.colons → c.uri ≠ d.uri) := by
  have hparts := uri_eq_iff hcu hdu
  refine ⟨hparts, fun hport huri => ?_, fun hvirtual hfree hfree' huri => ?_,
    fun hhost hats huri => ?_, fun hlogin hats hcolons huri => ?_⟩
  · exact hport (hparts.mp huri).2.1
  · have hescaped := congrArg String.toList (hparts.mp huri).2.2
    rw [escapeSlashes_toList, escapeSlashes_toList] at hescaped
    have htext := String.toList_inj.mp (escaped_inj hfree hfree' hescaped)
    exact hvirtual (virtualHost_inj hc hd htext)
  · exact hhost (authority_inj (hparts.mp huri).1 hats).2
  · exact hlogin (login_inj (authority_inj (hparts.mp huri).1 hats).1 hcolons)

/-- A password that is left out makes another URI, though the password that is given and the host
hold an at sign and the user holds a colon. -/
theorem uri_tells_apart_password :
    let c : QueueConfig :=
      { host := { host := "a@mq" }, queue := some "q", user := some "x:y", password := some "z@",
        virtualHost := some "/%2" }
    let d : QueueConfig := { c with password := none }
    c.validate = .ok () ∧ d.validate = .ok () ∧ c.login ≠ d.login ∧
      c.uri = "amqp://x:y:z@@a@mq:5672/%2f%2" ∧ c.uri ≠ d.uri := by
  intro c d
  have hc : c.validate = .ok () := by decide +kernel
  have hd : d.validate = .ok () := by decide +kernel
  have hlogin : c.login ≠ d.login := by decide +kernel
  exact ⟨hc, hd, hlogin, by decide +kernel,
    (uri_tells_apart hc hd rfl rfl).2.2.2.2 hlogin rfl rfl⟩

/-- Settings that differ may share a URI: a virtual host with a slash and one with the escape of a
slash do, for that is not escaped itself. -/
theorem uri_shared :
    ¬ ∀ (c d : QueueConfig) (s t : String), c.validate = .ok () → d.validate = .ok () →
      c.brokerUri = none → d.brokerUri = none → Address.parse s = .ok c.host →
      Address.parse t = .ok d.host →
      (c.login ≠ d.login ∨ c.host.host ≠ d.host.host ∨ c.port ≠ d.port ∨
        c.virtualHost ≠ d.virtualHost) → c.uri ≠ d.uri := by
  intro h
  let c : QueueConfig := { queue := some "q", virtualHost := some "a/b" }
  let d : QueueConfig := { queue := some "q", virtualHost := some "a%2fb" }
  refine h c d "localhost" "localhost" (by decide +kernel) (by decide +kernel) rfl rfl
    (by decide +kernel) (by decide +kernel) (Or.inr (Or.inr (Or.inr (by decide)))) ?_
  decide +kernel

end QueueConfig

end Sluice
