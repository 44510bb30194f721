import ClawBox.Lib.Getopt
import ClawBox.Lib.IpAddress

namespace ClawBox.PolicySsh

open Getopt Fields IpAddress PyText

inductive Value where
  | none
  | bool (b : Bool)
  | int (n : ℤ)
  | str (s : Text)
  -- a list, an object or a float, as `str` shows it
  | other (shown : Text) (truthy : Bool)

def Value.text : Value → Text
  | .none | .bool false => []
  | .bool true => "True".toList
  | .int n => if n = 0 then [] else if n < 0 then '-' :: digits n.natAbs else digits n.natAbs
  | .str s => s
  | .other shown truthy => if truthy then shown else []

def Value.positive? : Value → Option { n : ℕ // 1 ≤ n }
  | .int n => if h : 1 ≤ n then some ⟨n.toNat, by omega⟩ else Option.none
  | _ => Option.none

structure Env where
  toolSandboxId : Text := []
  hostKeyAlias : Text := []

structure Admission where
  sandboxId : Value := .none
  epoch : Value := .none
  containerPort : Value := .none
  host : Value := .none
  port : Value := .none

def aliasText (s : Text) : Bool :=
  s ≠ [] && s.length ≤ 128 && s.all fun c => c.isAlphanum || c = '_' || c = '.' || c = '-'

structure Route where
  sandboxId : Text
  epoch : ℕ
  host : Text
  port : ℕ
  hostKeyAlias : Text
  positive : 1 ≤ epoch
  address : ipAddress host = true
  tcp : 1 ≤ port ∧ port ≤ 65535
  aliased : aliasText hostKeyAlias = true

def admissionRoute (repr : Text → Text) (env : Env) (admission : Admission) : Except Text Route :=
  let expected := strip env.toolSandboxId
  let sandboxId := strip admission.sandboxId.text
  if expected = [] ∨ sandboxId ≠ expected then
    .error ("policy route belongs to ".toList ++ repr sandboxId ++ ", expected Tool ".toList ++ repr expected)
  else
    match admission.epoch.positive? with
    | none => .error "policy route has no positive endpoint epoch".toList
    | some epoch =>
      if admission.containerPort.positive?.map Subtype.val ≠ some 2222 then
        .error "policy route is not for the Tool SSH port 2222".toList
      else
        let host := strip admission.host.text
        if hhost : ipAddress host = true then
          match admission.port.positive? with
          | none => .error "policy route has an invalid TCP port".toList
          | some port =>
            let hostKeyAlias := strip env.hostKeyAlias
            if hport : port.1 ≤ 65535 then
              if halias : aliasText hostKeyAlias = true then
                .ok ⟨sandboxId, epoch.1, host, port.1, hostKeyAlias, epoch.2, hhost, ⟨port.2, hport⟩, halias⟩
              else .error "stable Tool SSH host-key alias is not configured".toList
            else .error "policy route has an invalid TCP port".toList
        else .error ("policy route host is not an IP address: ".toList ++ repr host)

def lower (s : Arg) : Arg := s.map fun c => if c = '\u212A' then 'k' else c.toLower

def managedOptions : List Arg :=
  ["hostname".toList, "port".toList, "hostkeyalias".toList, "controlmaster".toList, "controlpersist".toList,
    "controlpath".toList]

def managed (option : Arg) : Bool := managedOptions.contains (lower (option.takeWhile (· ≠ '=')))

theorem managed_iff {option : Arg} : managed option = true ↔ lower (option.takeWhile (· ≠ '=')) ∈ managedOptions :=
  List.contains_iff_mem

def routePrefix : List Arg → Except Text (List Arg)
  | [] => .ok []
  | argument :: rest =>
    if argument = ['-', 'p'] then
      match rest with
      | [] => .error "SSH -p option has no port".toList
      | _ :: rest => routePrefix rest
    else if ['-', 'p'] <+: argument ∧ 2 < argument.length then routePrefix rest
    else if argument = ['-', 'o'] then
      match rest with
      | [] => .error "SSH -o option has no value".toList
      | option :: rest =>
        if managed option then routePrefix rest
        else (routePrefix rest).map fun kept => argument :: option :: kept
    else if ['-', 'o'] <+: argument ∧ 2 < argument.length ∧ managed (argument.drop 2) = true then routePrefix rest
    else (routePrefix rest).map (argument :: ·)

def Route.overrides (r : Route) : List Arg :=
  [['-', 'o'], "HostName=".toList ++ r.host, ['-', 'o'], "Port=".toList ++ digits r.port,
    ['-', 'o'], "HostKeyAlias=".toList ++ r.hostKeyAlias, ['-', 'o'], "ControlMaster=no".toList,
    ['-', 'o'], "ControlPersist=no".toList, ['-', 'o'], "ControlPath=none".toList]

def sshArgsForRoute (argv : List Arg) (route : Route) : Except Text (List Arg) :=
  if argv.length < 2 then .error "SSH invocation has no destination and remote command".toList
  else
    let targetIndex := argv.length - 2
    if (argv.drop targetIndex).head?.any fun target => target.head? = some '-' then
      .error "SSH invocation has no stable destination argument".toList
    else (routePrefix (argv.take targetIndex)).map fun kept => kept ++ route.overrides ++ argv.drop targetIndex

theorem Value.eq_of_positive? {v : Value} {n : { n : ℕ // 1 ≤ n }} (h : v.positive? = some n) : v = .int n.1 := by
  cases v with
  | int m =>
    rw [Value.positive?] at h
    split_ifs at h with hm
    obtain rfl := Option.some.inj h
    rw [Int.toNat_of_nonneg (by omega)]
  | _ => cases h

theorem admissionRoute_ok {repr : Text → Text} {env : Env} {admission : Admission} {r : Route}
    (h : admissionRoute repr env admission = .ok r) :
    r.sandboxId = strip env.toolSandboxId ∧ r.host = strip admission.host.text ∧ admission.port = .int r.port ∧
      r.hostKeyAlias = strip env.hostKeyAlias := by
  simp only [admissionRoute] at h
  split at h
  · cases h
  · rename_i hid
    split at h
    · cases h
    · split at h
      · cases h
      · split at h
        · split at h
          · cases h
          · rename_i port hport
            split at h
            · split at h
              · obtain rfl := Except.ok.inj h
                exact ⟨(not_not.1 (not_or.1 hid).2), rfl, Value.eq_of_positive? hport, rfl⟩
              · cases h
            · cases h
        · cases h

/-- The options of a client, and the settings that each of them gives; none for an option that it refuses. -/
structure Client extends Letters where
  sets : Char → Option Arg → Option (List (Arg × Arg))
  takes_p : takes 'p' = some true
  takes_o : takes 'o' = some true
  sets_p : ∀ v l, sets 'p' (some v) = some l → ∃ n, l = [("port".toList, n)]
  sets_managed : ∀ v l, managed v = true → sets 'o' (some v) = some l → ∃ key ∈ managedOptions, ∃ value,
    l = [(key, value)]
  sets_hostName : ∀ v, v ≠ [] → (∀ c ∈ v, addressChar c = true) →
    sets 'o' (some ("HostName=".toList ++ v)) = some [("hostname".toList, v)]
  sets_port : ∀ n, 1 ≤ n → n ≤ 65535 → sets 'o' (some ("Port=".toList ++ digits n)) = some [("port".toList, digits n)]
  sets_hostKeyAlias : ∀ v, aliasText v = true →
    sets 'o' (some ("HostKeyAlias=".toList ++ v)) = some [("hostkeyalias".toList, v)]
  sets_controlMaster : sets 'o' (some "ControlMaster=no".toList) = some [("controlmaster".toList, "no".toList)]
  sets_controlPersist : sets 'o' (some "ControlPersist=no".toList) = some [("controlpersist".toList, "no".toList)]
  sets_controlPath : sets 'o' (some "ControlPath=none".toList) = some [("controlpath".toList, "none".toList)]

namespace Client

variable (client : Client)

def settings (gs : List Spelled) : List (Arg × Arg) := (items gs).flatMap fun i => (client.sets i.1 i.2).getD []

/-- The first value given for a key, which is the one that counts. -/
def firstValue (gs : List Spelled) (key : Arg) : Option Arg := ((client.settings gs).find? (·.1 = key)).map Prod.snd

def Accepts (gs : List Spelled) : Prop := ∀ i ∈ items gs, (client.sets i.1 i.2).isSome

def routes (i : Char × Option Arg) : Bool :=
  (client.sets i.1 i.2).any fun l => l ≠ [] && l.all (managedOptions.contains ·.1)

end Client

def Route.settings (r : Route) : List (Arg × Arg) :=
  [("hostname".toList, r.host), ("port".toList, digits r.port), ("hostkeyalias".toList, r.hostKeyAlias),
    ("controlmaster".toList, "no".toList), ("controlpersist".toList, "no".toList),
    ("controlpath".toList, "none".toList)]

/-- The client reads the destination, the command and the other options as they were, and the admitted route. -/
def Effective (client : Client) (r : Route) (gs : List Spelled) (destination command : Arg)
    (out : Except Text (List Arg)) :
    Prop :=
  ∃ as gs', out = .ok as ∧ read client.toLetters as = some (gs', [destination, command]) ∧ client.Accepts gs' ∧
    (items gs').filter (!client.routes ·) = (items gs).filter (!client.routes ·) ∧
    ∀ s ∈ r.settings, client.firstValue gs' s.1 = some s.2

def stripped : Spelled → Bool
  | .separate [] c v | .attached [] c v => c = 'p' || c = 'o' && managed v
  | _ => false

def known (argument : Arg) : Bool :=
  ['-', 'p'] <+: argument || argument = ['-', 'o'] || ['-', 'o'] <+: argument && managed (argument.drop 2)

/-- No value of another option is an argument that the loop knows. -/
def aligned : Spelled → Bool
  | .separate [] c v => c = 'p' || c = 'o' || !known v
  | .separate _ _ v => !known v
  | _ => true

def commandLine (gs : List Spelled) (ended : Bool) (destination command : Arg) : List Arg :=
  args gs ++ (if ended then [['-', '-']] else []) ++ [destination, command]

structure Plain (client : Client) (r : Route) (gs : List Spelled) (ended : Bool) (destination : Arg) : Prop where
  scope : '%' ∉ r.host
  endless : ended = false
  destination : destination.head? ≠ some '-'
  aligned : ∀ g ∈ gs, aligned g = true
  first : ∀ s ∈ r.settings, ∀ v, client.firstValue (gs.filter (!stripped ·)) s.1 = some v → v = s.2

section Loop

theorem known_cluster (c : Char) (cs : List Char) :
    known ('-' :: c :: cs) = (c = 'p' || c = 'o' && (cs = [] || managed cs)) := by
  by_cases hp : c = 'p'
  · simp [known, hp]
  · by_cases ho : c = 'o'
    · simp [known, ho]
    · have ho' : 'o' ≠ c := Ne.symm ho
      have hp' : 'p' ≠ c := Ne.symm hp
      simp [known, hp, ho, ho', hp']

theorem routePrefix_keep {argument : Arg} (h : known argument = false) (rest : List Arg) :
    routePrefix (argument :: rest) = (routePrefix rest).map (argument :: ·) := by
  simp only [known, Bool.or_eq_false_iff, decide_eq_false_iff_not, Bool.and_eq_false_iff] at h
  obtain ⟨⟨hp, ho⟩, hm⟩ := h
  have hport : argument ≠ ['-', 'p'] := by
    rintro rfl
    exact hp List.prefix_rfl
  have hroute : ¬ (['-', 'o'] <+: argument ∧ 2 < argument.length ∧ managed (argument.drop 2) = true) := by
    rintro ⟨hpre, -, hman⟩
    cases hm with
    | inl hpre' => exact hpre' hpre
    | inr hman' => rw [hman] at hman'; cases hman'
  rw [routePrefix.eq_def]
  simp only
  rw [if_neg hport, if_neg fun h => hp h.1, if_neg ho, if_neg hroute]

theorem routePrefix_port (v : Arg) (more : List Arg) : routePrefix (['-', 'p'] :: v :: more) = routePrefix more := by
  rw [routePrefix.eq_def]
  rfl

theorem routePrefix_option (v : Arg) (more : List Arg) : routePrefix (['-', 'o'] :: v :: more) =
    if managed v then routePrefix more else (routePrefix more).map fun kept => ['-', 'o'] :: v :: kept := by
  rw [routePrefix.eq_def]
  rfl

theorem routePrefix_attachedPort {v : Arg} (hv : v ≠ []) (more : List Arg) :
    routePrefix (('-' :: 'p' :: v) :: more) = routePrefix more := by
  have hlong := List.length_pos_iff.2 hv
  rw [routePrefix.eq_def]
  simp only
  rw [if_neg (by simpa using hv), if_pos ⟨by simp, by simpa using hlong⟩]

theorem routePrefix_attachedOption {v : Arg} (hv : v ≠ []) (hm : managed v = true) (more : List Arg) :
    routePrefix (('-' :: 'o' :: v) :: more) = routePrefix more := by
  have hlong := List.length_pos_iff.2 hv
  rw [routePrefix.eq_def]
  simp only
  rw [if_neg (by simp), if_neg (by simp), if_neg (by simpa using hv), if_pos ⟨by simp, by simpa using hlong, hm⟩]

theorem map_map {α β γ ε : Type*} (x : Except ε α) (f : α → β) (g : β → γ) :
    (x.map f).map g = x.map fun a => g (f a) := by
  cases x <;> rfl

variable {client : Client}

theorem ne_of_flag {f : Char} (h : client.takes f = some false) : f ≠ 'p' ∧ f ≠ 'o' := by
  constructor
  · rintro rfl
    rw [client.takes_p] at h
    cases h
  · rintro rfl
    rw [client.takes_o] at h
    cases h

theorem not_known_of_flag {f : Char} (h : client.takes f = some false) (cs : List Char) :
    known ('-' :: f :: cs) = false := by
  simp [known_cluster, ne_of_flag h]

theorem routePrefix_spelled {g : Spelled} (hg : g.Valid client.toLetters) (ha : aligned g = true) (more : List Arg) :
    routePrefix (g.args ++ more) =
      if stripped g then routePrefix more else (routePrefix more).map (g.args ++ ·) := by
  cases g with
  | flags fs =>
    obtain ⟨hne, hfs⟩ := hg
    obtain ⟨f, fs, rfl⟩ := List.exists_cons_of_ne_nil hne
    exact routePrefix_keep (not_known_of_flag (hfs f List.mem_cons_self) fs) more
  | attached fs c v =>
    obtain ⟨hfs, hc, hv⟩ := hg
    cases fs with
    | nil =>
      rw [Spelled.args, List.nil_append, List.singleton_append]
      by_cases hp : c = 'p'
      · subst hp
        exact routePrefix_attachedPort hv more
      · by_cases ho : c = 'o'
        · subst ho
          by_cases hm : managed v = true
          · rw [routePrefix_attachedOption hv hm]
            simp [stripped, hm]
          · rw [routePrefix_keep (by simp [known_cluster, hv, hm])]
            simp [stripped, hm]
        · rw [routePrefix_keep (by simp [known_cluster, hp, ho])]
          simp [stripped, hp, ho]
    | cons f fs => exact routePrefix_keep (not_known_of_flag (hfs f List.mem_cons_self) _) more
  | separate fs c v =>
    obtain ⟨hfs, hc⟩ := hg
    cases fs with
    | nil =>
      rw [Spelled.args, List.nil_append, List.cons_append, List.singleton_append]
      by_cases hp : c = 'p'
      · subst hp
        exact routePrefix_port v more
      · by_cases ho : c = 'o'
        · subst ho
          exact routePrefix_option v more
        · have hv : known v = false := by simpa [aligned, hp, ho] using ha
          rw [routePrefix_keep (by simp [known_cluster, hp, ho]), routePrefix_keep hv, map_map]
          simp [stripped, hp, ho]
    | cons f fs =>
      have hv : known v = false := by simpa [aligned] using ha
      rw [Spelled.args, List.cons_append, List.cons_append, List.cons_append, List.nil_append,
        routePrefix_keep (not_known_of_flag (hfs f List.mem_cons_self) _), routePrefix_keep hv, map_map]
      rfl

theorem routePrefix_args {gs : List Spelled} (hgs : ∀ g ∈ gs, g.Valid client.toLetters)
    (ha : ∀ g ∈ gs, aligned g = true) (tail : List Arg) :
    routePrefix (args gs ++ tail) = (routePrefix tail).map (args (gs.filter (!stripped ·)) ++ ·) := by
  induction gs with
  | nil =>
    simp only [args_nil, List.nil_append, List.filter_nil]
    cases routePrefix tail <;> rfl
  | cons g gs ih =>
    have hrest := ih (fun g' h => hgs g' (List.mem_cons_of_mem g h)) (fun g' h => ha g' (List.mem_cons_of_mem g h))
    rw [args_cons, List.append_assoc, routePrefix_spelled (hgs g List.mem_cons_self) (ha g List.mem_cons_self), hrest]
    by_cases hs : stripped g = true
    · rw [if_pos hs, List.filter_cons_of_neg (by simp [hs])]
    · rw [if_neg hs, List.filter_cons_of_pos (by simpa using hs), map_map, args_cons]
      simp only [List.append_assoc]

theorem sshArgsForRoute_eq (kept : List Arg) (destination command : Arg) (r : Route) :
    sshArgsForRoute (kept ++ [destination, command]) r =
      if destination.head? = some '-' then .error "SSH invocation has no stable destination argument".toList
      else (routePrefix kept).map (· ++ r.overrides ++ [destination, command]) := by
  have hlength : (kept ++ [destination, command]).length = kept.length + 2 := by simp
  have hdrop : (kept ++ [destination, command]).drop kept.length = [destination, command] := List.drop_left
  have htake : (kept ++ [destination, command]).take kept.length = kept := List.take_left
  simp only [sshArgsForRoute, hlength, Nat.add_sub_cancel, hdrop, htake, List.head?_cons, Option.any_some,
    decide_eq_true_eq]
  rw [if_neg (by omega)]

end Loop

section Reading

variable {client : Client} {r : Route}

def Route.spelled (r : Route) : List Spelled :=
  [.separate [] 'o' ("HostName=".toList ++ r.host), .separate [] 'o' ("Port=".toList ++ digits r.port),
    .separate [] 'o' ("HostKeyAlias=".toList ++ r.hostKeyAlias), .separate [] 'o' "ControlMaster=no".toList,
    .separate [] 'o' "ControlPersist=no".toList, .separate [] 'o' "ControlPath=none".toList]

theorem args_spelled (r : Route) : args r.spelled = r.overrides := rfl

theorem valid_spelled (client : Client) : ∀ g ∈ r.spelled, g.Valid client.toLetters := by
  have hvalid : ∀ v, (Spelled.separate [] 'o' v).Valid client.toLetters := fun v => ⟨by simp, client.takes_o⟩
  simp only [Route.spelled, List.forall_mem_cons, hvalid, List.not_mem_nil, false_implies, implies_true, and_self]

theorem host_ne_nil (r : Route) : r.host ≠ [] := by
  intro h
  have := r.address
  rw [h] at this
  revert this
  decide

theorem sets_spelled (client : Client) (h : '%' ∉ r.host) :
    (items r.spelled).map (fun i => client.sets i.1 i.2) = r.settings.map fun s => some [s] := by
  have hhost := client.sets_hostName r.host (host_ne_nil r) (ipAddress_chars r.address h)
  have hport := client.sets_port r.port r.tcp.1 r.tcp.2
  have halias := client.sets_hostKeyAlias r.hostKeyAlias r.aliased
  simp only [Route.spelled, items_cons, items_nil, Spelled.items, List.map_nil, List.nil_append, List.append_nil,
    List.map_cons, hhost, hport, halias, client.sets_controlMaster, client.sets_controlPersist, client.sets_controlPath,
    Route.settings, List.cons_append]

theorem settings_append (gs hs : List Spelled) :
    client.settings (gs ++ hs) = client.settings gs ++ client.settings hs := by
  rw [Client.settings, items_append, List.flatMap_append]
  rfl

theorem settings_spelled (h : '%' ∉ r.host) : client.settings r.spelled = r.settings := by
  have hmap : client.settings r.spelled = ((items r.spelled).map fun i => client.sets i.1 i.2).flatMap (·.getD []) := by
    rw [List.flatMap_map]
    rfl
  rw [hmap, sets_spelled client h, List.flatMap_map]
  simp

theorem managed_of_settings : ∀ s ∈ r.settings, s.1 ∈ managedOptions := by
  simp [Route.settings, managedOptions]

theorem mem_spelled (client : Client) (h : '%' ∉ r.host) {i : Char × Option Arg} (hi : i ∈ items r.spelled) :
    ∃ s ∈ r.settings, client.sets i.1 i.2 = some [s] := by
  have hmem : client.sets i.1 i.2 ∈ (items r.spelled).map fun i => client.sets i.1 i.2 := List.mem_map_of_mem hi
  rw [sets_spelled client h] at hmem
  obtain ⟨s, hs, heq⟩ := List.mem_map.1 hmem
  exact ⟨s, hs, heq.symm⟩

theorem first_settings (r : Route) : ∀ s ∈ r.settings, (r.settings.find? (·.1 = s.1)).map Prod.snd = some s.2 := by
  simp [Route.settings]

theorem firstValue_append (gs : List Spelled) (h : '%' ∉ r.host) {s : Arg × Arg} (hs : s ∈ r.settings) :
    client.firstValue (gs ++ r.spelled) s.1 = some s.2 ↔ ∀ v, client.firstValue gs s.1 = some v → v = s.2 := by
  have hadmitted := first_settings r s hs
  rw [Client.firstValue, settings_append, settings_spelled h, List.find?_append, Client.firstValue]
  cases hf : (client.settings gs).find? (·.1 = s.1) with
  | none => simpa using hadmitted
  | some x => simp

theorem routes_of_stripped {g : Spelled} (hs : stripped g = true) (ha : ∀ i ∈ g.items, (client.sets i.1 i.2).isSome) :
    ∀ i ∈ g.items, client.routes i = true := by
  have hitem : ∀ c v, (c = 'p' ∨ c = 'o' ∧ managed v = true) → (client.sets c (some v)).isSome →
      client.routes (c, some v) = true := by
    intro c v hc hv
    obtain ⟨l, hl⟩ := Option.isSome_iff_exists.1 hv
    cases hc with
    | inl hp =>
      subst hp
      obtain ⟨n, rfl⟩ := client.sets_p v l hl
      simp [Client.routes, hl, managedOptions]
    | inr ho =>
      obtain ⟨rfl, hm⟩ := ho
      obtain ⟨key, hkey, value, rfl⟩ := client.sets_managed v l hm hl
      simp [Client.routes, hl, hkey]
  cases g with
  | flags fs => cases hs
  | attached fs c v =>
    cases fs with
    | nil =>
      intro i hi
      obtain rfl : i = (c, some v) := by simpa [Spelled.items] using hi
      exact hitem c v (by simpa [stripped] using hs) (ha _ hi)
    | cons f fs => cases hs
  | separate fs c v =>
    cases fs with
    | nil =>
      intro i hi
      obtain rfl : i = (c, some v) := by simpa [Spelled.items] using hi
      exact hitem c v (by simpa [stripped] using hs) (ha _ hi)
    | cons f fs => cases hs

theorem other_kept {gs : List Spelled} (ha : client.Accepts gs) :
    (items (gs.filter (!stripped ·))).filter (!client.routes ·) = (items gs).filter (!client.routes ·) := by
  induction gs with
  | nil => rfl
  | cons g gs ih =>
    have hhead : ∀ i ∈ g.items, (client.sets i.1 i.2).isSome := fun i hi => ha i (by simp [hi])
    have htail : client.Accepts gs := fun i hi => ha i (by simp [hi])
    by_cases hs : stripped g = true
    · have hroutes := routes_of_stripped hs hhead
      have hnone : g.items.filter (!client.routes ·) = [] := by
        rw [List.filter_eq_nil_iff]
        intro i hi
        simp [hroutes i hi]
      rw [List.filter_cons_of_neg (by simp [hs]), items_cons, List.filter_append, hnone, ih htail, List.nil_append]
    · rw [List.filter_cons_of_pos (by simpa using hs), items_cons, items_cons, List.filter_append, List.filter_append,
        ih htail]

theorem other_spelled (h : '%' ∉ r.host) : (items r.spelled).filter (!client.routes ·) = [] := by
  rw [List.filter_eq_nil_iff]
  intro i hi
  obtain ⟨s, hs, hset⟩ := mem_spelled client h hi
  simp [Client.routes, hset, managed_of_settings s hs]

end Reading

section Effect

variable {client : Client} {r : Route} {gs : List Spelled} {ended : Bool} {destination command : Arg}

theorem sshArgsForRoute_aligned (hgs : ∀ g ∈ gs, g.Valid client.toLetters) (ha : ∀ g ∈ gs, aligned g = true) :
    sshArgsForRoute (commandLine gs ended destination command) r =
      if destination.head? = some '-' then .error "SSH invocation has no stable destination argument".toList
      else .ok (args (gs.filter (!stripped ·)) ++ ((if ended then [['-', '-']] else []) ++ r.overrides ++
        [destination, command])) := by
  have htail : routePrefix (if ended then [['-', '-']] else []) = .ok (if ended then [['-', '-']] else []) := by
    cases ended <;> rfl
  rw [commandLine, sshArgsForRoute_eq, routePrefix_args hgs ha, htail]
  simp only [Except.map, List.append_assoc]

theorem effective_of_plain (hgs : ∀ g ∈ gs, g.Valid client.toLetters) (hacc : client.Accepts gs)
    (hd : Operand destination) (h : Plain client r gs ended destination) :
    Effective client r gs destination command (sshArgsForRoute (commandLine gs ended destination command) r) := by
  have hkept : ∀ g ∈ gs.filter (!stripped ·), g.Valid client.toLetters := fun g hg => hgs g (List.mem_filter.1 hg).1
  have hended := h.endless
  subst hended
  refine ⟨_, gs.filter (!stripped ·) ++ r.spelled, by rw [sshArgsForRoute_aligned hgs h.aligned, if_neg h.destination],
    ?_, ?_, ?_, ?_⟩
  · rw [read_args hkept, if_neg (by simp), List.nil_append, ← args_spelled, read_args (valid_spelled client),
      read_operand hd]
    simp
  · intro i hi
    rw [items_append, List.mem_append] at hi
    cases hi with
    | inl hi =>
      obtain ⟨g, hg, hig⟩ := List.mem_flatMap.1 hi
      exact hacc i (List.mem_flatMap.2 ⟨g, (List.mem_filter.1 hg).1, hig⟩)
    | inr hi =>
      obtain ⟨s, -, hset⟩ := mem_spelled client h.scope hi
      rw [hset]
      rfl
  · rw [items_append, List.filter_append, other_kept hacc, other_spelled h.scope, List.append_nil]
  · intro s hs
    exact (firstValue_append _ h.scope hs).2 (h.first s hs)

theorem plain_of_effective (hgs : ∀ g ∈ gs, g.Valid client.toLetters) (hd : Operand destination) (hscope : '%' ∉ r.host)
    (ha : ∀ g ∈ gs, aligned g = true)
    (h : Effective client r gs destination command (sshArgsForRoute (commandLine gs ended destination command) r)) :
    Plain client r gs ended destination := by
  have hkept : ∀ g ∈ gs.filter (!stripped ·), g.Valid client.toLetters := fun g hg => hgs g (List.mem_filter.1 hg).1
  obtain ⟨as, gs', hout, hread, -, -, hfirst⟩ := h
  rw [sshArgsForRoute_aligned hgs ha] at hout
  have hdash : destination.head? ≠ some '-' := by
    intro hdash
    rw [if_pos hdash] at hout
    cases hout
  rw [if_neg hdash] at hout
  obtain rfl := Except.ok.inj hout
  rw [read_args hkept] at hread
  cases ended with
  | true =>
    rw [if_pos rfl, List.singleton_append, List.cons_append, read_end] at hread
    obtain ⟨-, hrest⟩ := Prod.mk.inj (Option.some.inj hread)
    simpa [Route.overrides] using congrArg List.length hrest
  | false =>
    rw [if_neg (by simp), List.nil_append, ← args_spelled, read_args (valid_spelled client), read_operand hd] at hread
    obtain ⟨rfl, -⟩ := Prod.mk.inj (Option.some.inj hread)
    refine ⟨hscope, rfl, hdash, ha, ?_⟩
    intro s hs
    rw [← firstValue_append _ hscope hs]
    simpa using hfirst s hs

theorem sshArgsForRoute_effective {repr : Text → Text} {env : Env} {admission : Admission}
    (hr : admissionRoute repr env admission = .ok r) (hgs : ∀ g ∈ gs, g.Valid client.toLetters)
    (hacc : client.Accepts gs) (hd : Operand destination) :
    (r.host = strip admission.host.text ∧ admission.port = .int r.port ∧ r.hostKeyAlias = strip env.hostKeyAlias) ∧
    (Plain client r gs ended destination →
      Effective client r gs destination command (sshArgsForRoute (commandLine gs ended destination command) r)) ∧
    ('%' ∉ r.host → (∀ g ∈ gs, aligned g = true) →
      (Effective client r gs destination command (sshArgsForRoute (commandLine gs ended destination command) r) ↔
        Plain client r gs ended destination)) := by
  refine ⟨(admissionRoute_ok hr).2, effective_of_plain hgs hacc hd, ?_⟩
  intro hscope ha
  exact ⟨plain_of_effective hgs hd hscope ha, effective_of_plain hgs hacc hd⟩

end Effect

section OpenSsh

def openSshSets (c : Char) (v : Option Arg) : Option (List (Arg × Arg)) :=
  match v with
  | none => if c = 'M' then some [("controlmaster".toList, "yes".toList)] else some []
  | some v =>
    if c = 'p' then some [("port".toList, v)]
    else if c = 'S' then some [("controlpath".toList, v)]
    else if c = 'o' then
      let keyword := v.takeWhile fun c => c ≠ '=' && c ≠ ' '
      some [(lower keyword, (v.drop keyword.length).dropWhile fun c => c = '=' || c = ' ')]
    else some []

theorem openSshSets_assigned (keyword : Arg) (hk : ∀ c ∈ keyword, c ≠ '=' ∧ c ≠ ' ') {P : Char → Bool} {v : Arg}
    (hP : P '=' = false ∧ P ' ' = false) (hPv : ∀ c ∈ v, P c = true) :
    openSshSets 'o' (some (keyword ++ '=' :: v)) = some [(lower keyword, v)] := by
  have hv : ∀ c ∈ v.head?, c ≠ '=' ∧ c ≠ ' ' := by
    intro c hc
    have hc' := hPv c (List.mem_of_mem_head? hc)
    constructor
    · rintro rfl
      rw [hP.1] at hc'
      cases hc'
    · rintro rfl
      rw [hP.2] at hc'
      cases hc'
  have htake : (keyword ++ '=' :: v).takeWhile (fun c => c ≠ '=' && c ≠ ' ') = keyword := by
    rw [List.takeWhile_append_of_pos (by simpa using hk)]
    simp
  have hdrop : ('=' :: v).dropWhile (fun c => c = '=' || c = ' ') = v := by
    cases v with
    | nil => rfl
    | cons d v =>
      have := hv d rfl
      simp [this]
  simp only [openSshSets, htake, List.drop_left, hdrop]
  rfl

theorem takeWhile_of_managed {v : Arg} (h : managed v = true) :
    v.takeWhile (fun c => c ≠ '=' && c ≠ ' ') = v.takeWhile (· ≠ '=') := by
  have hspace : ' ' ∉ v.takeWhile (· ≠ '=') := by
    intro hmem
    have hlower : ' ' ∈ lower (v.takeWhile (· ≠ '=')) := List.mem_map.2 ⟨' ', hmem, by decide⟩
    have hnone : ∀ o ∈ managedOptions, ' ' ∉ o := by decide
    exact hnone _ (managed_iff.1 h) hlower
  have hself : (v.takeWhile (· ≠ '=')).takeWhile (· ≠ ' ') = v.takeWhile (· ≠ '=') := by
    rw [List.takeWhile_eq_self_iff]
    intro c hc
    rw [decide_eq_true_eq]
    rintro rfl
    exact hspace hc
  rw [← hself, List.takeWhile_takeWhile]
  simp [Bool.and_comm]

def openSsh : Client where
  takes c :=
    if c ∈ "1246AaCfGgKkMNnqsTtVvXxYy".toList then some false
    else if c ∈ "BbcDEeFIiJLlmOoPpQRSWw".toList then some true
    else none
  dash := by decide
  sets := openSshSets
  takes_p := by decide
  takes_o := by decide
  sets_p v l h := ⟨v, (Option.some.inj h).symm⟩
  sets_managed v l hm h := by
    obtain rfl := Option.some.inj h
    rw [takeWhile_of_managed hm]
    exact ⟨_, managed_iff.1 hm, _, rfl⟩
  sets_hostName v _ hv := openSshSets_assigned "HostName".toList (by simp) (by decide) hv
  sets_port n _ _ := openSshSets_assigned "Port".toList (by simp) (by decide) fun c hc => isDigit_of_mem_digits hc
  sets_hostKeyAlias v hv := by
    simp only [aliasText, Bool.and_eq_true, List.all_eq_true] at hv
    exact openSshSets_assigned "HostKeyAlias".toList (by simp) (by decide) hv.2
  sets_controlMaster := by decide
  sets_controlPersist := by decide
  sets_controlPath := by decide

def loopback : Route where
  sandboxId := "tool-1".toList
  epoch := 3
  host := "127.0.0.1".toList
  port := 20010
  hostKeyAlias := "tool".toList
  positive := by decide
  address := by decide
  tcp := by decide
  aliased := by decide

theorem sshArgsForRoute_effective_loopback :
    Effective openSsh loopback
    [.separate [] 'p' "20009".toList, .flags ['t', 't'], .attached [] 'o' "Port=20009".toList]
      "openclaw-sandbox".toList "true".toList
      (sshArgsForRoute (commandLine
        [.separate [] 'p' "20009".toList, .flags ['t', 't'], .attached [] 'o' "Port=20009".toList]
        false "openclaw-sandbox".toList "true".toList) loopback) := by
  have hr : admissionRoute id ⟨"tool-1".toList, "tool".toList⟩
      ⟨.str "tool-1".toList, .int 3, .int 2222, .str "127.0.0.1".toList, .int 20010⟩ = .ok loopback := rfl
  refine (sshArgsForRoute_effective hr ?_ ?_ ?_).2.1 ⟨by decide, rfl, by decide, by simp [aligned], ?_⟩
  · have htty : openSsh.takes 't' = some false := rfl
    simp only [List.forall_mem_cons, Spelled.Valid, openSsh.takes_p, openSsh.takes_o]
    simp [htty]
  · intro i hi
    have hitems : i ∈ [('p', some "20009".toList), ('t', none), ('t', none), ('o', some "Port=20009".toList)] := hi
    simp only [List.mem_cons, List.not_mem_nil, or_false] at hitems
    rcases hitems with rfl | rfl | rfl | rfl <;> rfl
  · rintro c cs ⟨⟩
  · intro s _ v hv
    cases hv

theorem blank_spelling_stale :
    ¬ Effective openSsh loopback [.separate [] 'o' "Port 20009".toList] "openclaw-sandbox".toList "true".toList
      (sshArgsForRoute ["-o".toList, "Port 20009".toList, "openclaw-sandbox".toList, "true".toList] loopback) := by
  intro h
  have hplain : Plain openSsh loopback [.separate [] 'o' "Port 20009".toList] false "openclaw-sandbox".toList := by
    refine plain_of_effective ?_ ?_ (by decide) (by simp [aligned]) h
    · intro g hg
      obtain rfl := List.mem_singleton.1 hg
      exact ⟨by simp, openSsh.takes_o⟩
    · rintro c cs ⟨⟩
  have hport := hplain.first ("port".toList, "20010".toList) (by decide) "20009".toList (by decide)
  exact absurd hport (by decide)

end OpenSsh

end ClawBox.PolicySsh
