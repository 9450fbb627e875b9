import Exemplar.CommandLine
import Exemplar.CommandLine.Arguments
import Exemplar.Proofs.CleanFailure
import Exemplar.Proofs.Continuation

/-!
# Failed runs leave no trace

A run looks for its inputs, reads every one of them and describes it, and all of this only looks
at files. What it writes comes last. So a run that fails on its arguments or on any input, be it
the last of many, prints nothing and leaves every file and directory as it was, that to be written
included.
-/

namespace Exemplar

/-! Looking without touching -/

section Observing

variable {σ α β : Type}

/-- The computation only looks at its surroundings. -/
def Observes (c : StateM σ α) : Prop :=
  ∀ s, (c.run s).2 = s

/-- What a computation finds in its surroundings. -/
def answer (c : StateM σ α) (s : σ) : α :=
  (c.run s).1

namespace Observes

variable {c : StateM σ α} {f : α → StateM σ β}

/-- After a look, the surroundings are still the same. -/
theorem run_bind (h : Observes c) (f : α → StateM σ β) (s : σ) :
    (c >>= f).run s = (f (answer c s)).run s := by
  change (f (answer c s)).run (c.run s).2 = _
  rw [h s]

theorem answer_bind (h : Observes c) (f : α → StateM σ β) (s : σ) :
    answer (c >>= f) s = answer (f (answer c s)) s :=
  congrArg Prod.fst (h.run_bind f s)

protected theorem pure (a : α) : Observes (pure a : StateM σ α) := fun _ => rfl

protected theorem bind (h : Observes c) (hf : ∀ a, Observes (f a)) : Observes (c >>= f) := by
  intro s
  rw [h.run_bind f s]
  exact hf _ s

protected theorem ite {d : StateM σ α} {p : Prop} {_ : Decidable p} (hc : Observes c)
    (hd : Observes d) : Observes (if p then c else d) := by
  split
  · exact hc
  · exact hd

protected theorem map (h : Observes c) (f : α → β) : Observes (f <$> c) := h

protected theorem mapM {f : β → StateM σ α} (hf : ∀ b, Observes (f b)) :
    ∀ list : List β, Observes (list.mapM f)
  | [] => Observes.pure []
  | b :: rest => by
    rw [List.mapM_cons]
    exact (hf b).bind fun _ => (Observes.mapM hf rest).bind fun _ => Observes.pure _

end Observes

end Observing

variable {σ : Type} {host : Host (StateM σ)}

/-! Patterns -/

namespace Glob

variable {goOn : Continuation (StateM σ)}

theorem observes_proceed (hgoOn : ∀ parts found, Observes (goOn parts found))
    (directoriesOnly : Bool) (rest : List (List PatternItem)) (found : Found) :
    Observes (proceed directoriesOnly goOn rest found) := by
  rw [proceed]
  exact (hgoOn rest found).ite (Observes.pure _)

theorem observes_matchName (hgoOn : ∀ parts found, Observes (goOn parts found))
    (directoriesOnly : Bool) (name : String) (found : Found) (parts : List (List PatternItem)) :
    Observes (matchName directoriesOnly goOn name found parts) := by
  cases parts with
  | nil => exact Observes.pure _
  | cons items rest =>
    rw [matchName]
    exact (observes_proceed hgoOn directoriesOnly rest found).ite (Observes.pure _)

theorem observes_visit (hgoOn : ∀ parts found, Observes (goOn parts found))
    (directoriesOnly : Bool) (parts : List (List PatternItem)) (name : String) (found : Found) :
    Observes (visit directoriesOnly goOn parts name found) := by
  have hname := observes_matchName hgoOn directoriesOnly name found
  cases parts with
  | nil => exact Observes.pure _
  | cons items rest =>
    rw [visit]
    refine Observes.ite ?_ (hname _)
    refine Observes.ite ((Observes.pure _).bind ?_) ((hname _).bind ?_)
    all_goals
      intro here
      exact Observes.ite ((hgoOn _ found).bind fun _ => Observes.pure _)
        ((Observes.pure _).bind fun _ => Observes.pure _)

theorem observes_below (hkind : ∀ path, Observes (host.kind? path))
    (hentries : ∀ path, Observes (host.entries path))
    (hgoOn : ∀ parts found, Observes (goOn parts found)) (directoriesOnly : Bool)
    (parts : List (List PatternItem)) (found : Found) :
    Observes (below host directoriesOnly goOn parts found) := by
  have hproceed := observes_proceed hgoOn directoriesOnly
  cases parts with
  | nil => exact Observes.pure _
  | cons items rest =>
    rw [below]
    cases Pattern.literal? items with
    | some chars =>
      refine (hkind _).bind fun kind => ?_
      dsimp only
      exact (hproceed rest _).ite (Observes.pure _)
    | none =>
      dsimp only
      refine Observes.ite (Observes.pure _) ?_
      refine (hentries found.path).bind fun entries? => ?_
      cases entries? with
      | error error => exact Observes.pure _
      | ok entries =>
        refine Observes.bind (Observes.mapM (fun name => hproceed rest _) _) fun dots => ?_
        refine Observes.bind (Observes.mapM (fun entry => ?_) _) fun matched => Observes.pure _
        exact observes_visit hgoOn directoriesOnly _ _ _

/-- A walk of any number of steps. -/
theorem observes_walk (hkind : ∀ path, Observes (host.kind? path))
    (hentries : ∀ path, Observes (host.entries path)) (directoriesOnly : Bool) (steps : Nat) :
    ∀ parts found, Observes (walk host directoriesOnly steps parts found) := by
  induction steps with
  | zero => exact fun _ _ => Observes.pure _
  | succ steps ih => exact observes_below hkind hentries ih directoriesOnly

theorem observes_search (hkind : ∀ path, Observes (host.kind? path))
    (hentries : ∀ path, Observes (host.entries path)) (text : String) :
    Observes (search host text) := by
  rw [search]
  split
  · exact Observes.pure _
  · exact ((observes_walk hkind hentries _ _ _ _).bind fun _ => Observes.pure _).map _

end Glob

namespace CommandLine

/-- Reading inputs changes nothing, and neither does looking for what matches a pattern. -/
structure Discreet (conventions : Conventions (StateM σ)) (host : Host (StateM σ)) : Prop where
  standardInput : Observes host.standardInput
  readFile (path : String) : Observes (host.readFile path)
  search (pattern : String) : Observes (conventions.search pattern)

/-- On a tree of files, the usual conventions are discreet. -/
theorem discreet_usual (input : Input) :
    Discreet (.usual (FileTree.host input)) (FileTree.host input) where
  standardInput := fun _ => rfl
  readFile := fun _ _ => rfl
  search := Glob.observes_search (fun _ _ => rfl) (fun _ _ => rfl)

variable {conventions : Conventions (StateM σ)} {s : σ} {options : Options}

/-! Resolving inputs -/

/-- The paths among what was found for a pattern. -/
def Matches.paths : Matches → List String
  | .error _ => []
  | .ok found => found.filterMap Except.toOption

/-- A pattern of which everything that was found is a path, and something was found. -/
def Matches.Sound (found : Matches) : Prop :=
  ∃ paths : List String, paths ≠ [] ∧ found = .ok (paths.map .ok)

theorem eq_map_ok_of_mapM {found : List (Except String String)} {paths : List String}
    (h : found.mapM id = .ok paths) : found = paths.map .ok := by
  induction found generalizing paths with
  | nil =>
    obtain rfl := Except.ok.inj h
    rfl
  | cons item rest ih =>
    rw [List.mapM_cons] at h
    cases item with
    | error complaint => contradiction
    | ok path =>
      cases hrest : rest.mapM id with
      | error complaint =>
        rw [hrest] at h
        contradiction
      | ok others =>
        rw [hrest] at h
        obtain rfl := Except.ok.inj h
        rw [ih hrest, List.map_cons]

/-- A pattern that stands for inputs stands for all that was found, and something was. -/
theorem Matches.sound_of_sources {pattern : String} {found : Matches} {sources : List Source}
    (h : found.sources pattern = .ok sources) :
    found.Sound ∧ sources = found.paths.map .file := by
  cases found with
  | error complaint => contradiction
  | ok found =>
    rw [Matches.sources] at h
    split at h
    · contradiction
    · contradiction
    · rename_i paths hne hfound
      obtain rfl := Except.ok.inj h
      obtain rfl := eq_map_ok_of_mapM hfound
      have hpaths : (paths.map Except.ok : List (Except String String)).filterMap Except.toOption =
          paths := by
        rw [List.filterMap_map]
        exact List.filterMap_some
      rw [Matches.paths, hpaths]
      exact ⟨⟨paths, hne, rfl⟩, rfl⟩

/-- The inputs that an argument stands for. -/
def sourcesOf (conventions : Conventions (StateM σ)) (s : σ) (argument : String) : List Source :=
  if argument = "-" then [.standardInput]
  else if isPattern argument then (answer (conventions.search argument) s).paths.map .file
  else [.file argument]

theorem observes_resolve (hdiscreet : Discreet conventions host) (argument : String) :
    Observes (resolve conventions argument) := by
  rw [resolve]
  exact Observes.ite (Observes.pure _)
    (Observes.ite ((hdiscreet.search argument).bind fun _ => Observes.pure _) (Observes.pure _))

theorem observes_resolveAll (hdiscreet : Discreet conventions host) (arguments : List String) :
    Observes (resolveAll conventions arguments) := by
  induction arguments with
  | nil => exact Observes.pure _
  | cons argument rest ih =>
    rw [resolveAll]
    refine (observes_resolve hdiscreet argument).bind fun resolved => ?_
    split
    · exact Observes.pure _
    · refine ih.bind fun others => ?_
      split <;> exact Observes.pure _

/-- An argument that is resolved stands for its inputs; if it is a pattern, it is a sound one. -/
theorem answer_resolve (hdiscreet : Discreet conventions host) {argument : String}
    {sources : List Source} (h : answer (resolve conventions argument) s = .ok sources) :
    sources = sourcesOf conventions s argument ∧
      (isPattern argument → (answer (conventions.search argument) s).Sound) := by
  rw [resolve] at h
  rw [sourcesOf]
  split at h
  · rename_i hdash
    obtain rfl := Except.ok.inj h
    rw [if_pos hdash]
    refine ⟨rfl, fun hpattern => ?_⟩
    subst hdash
    contradiction
  · rename_i hdash
    rw [if_neg hdash]
    split at h
    · rename_i hpattern
      rw [(hdiscreet.search argument).answer_bind] at h
      obtain ⟨hsound, hsources⟩ := Matches.sound_of_sources h
      rw [if_pos hpattern]
      exact ⟨hsources, fun _ => hsound⟩
    · rename_i hpattern
      obtain rfl := Except.ok.inj h
      rw [if_neg hpattern]
      exact ⟨rfl, fun h => absurd h hpattern⟩

/-- Arguments that are resolved stand for their inputs, and the patterns among them are sound. -/
theorem answer_resolveAll (hdiscreet : Discreet conventions host) {arguments : List String}
    {sources : List Source} (h : answer (resolveAll conventions arguments) s = .ok sources) :
    sources = arguments.flatMap (sourcesOf conventions s) ∧
      ∀ argument ∈ arguments, isPattern argument →
        (answer (conventions.search argument) s).Sound := by
  induction arguments generalizing sources with
  | nil =>
    obtain rfl := Except.ok.inj h
    exact ⟨rfl, fun _ h => absurd h List.not_mem_nil⟩
  | cons argument rest ih =>
    rw [resolveAll, (observes_resolve hdiscreet argument).answer_bind] at h
    cases hfirst : answer (resolve conventions argument) s with
    | error failure =>
      rw [hfirst] at h
      contradiction
    | ok found =>
      rw [hfirst] at h
      dsimp only at h
      rw [(observes_resolveAll hdiscreet rest).answer_bind] at h
      cases hrest : answer (resolveAll conventions rest) s with
      | error failure =>
        rw [hrest] at h
        contradiction
      | ok others =>
        rw [hrest] at h
        obtain rfl := Except.ok.inj h
        obtain ⟨hfound, hsound⟩ := answer_resolve hdiscreet hfirst
        obtain ⟨hothers, hall⟩ := ih hrest
        rw [List.flatMap_cons, ← hfound, ← hothers]
        exact ⟨rfl, List.forall_mem_cons.mpr ⟨hsound, hall⟩⟩

/-- The standard input is read once for each dash. -/
theorem count_standardInput (conventions : Conventions (StateM σ)) (s : σ)
    (arguments : List String) :
    (arguments.flatMap (sourcesOf conventions s)).count .standardInput = arguments.count "-" := by
  have hone : ∀ argument, (sourcesOf conventions s argument).count .standardInput =
      if argument = "-" then 1 else 0 := by
    intro argument
    rw [sourcesOf]
    split
    · rfl
    · split
      · refine List.count_eq_zero.mpr fun hmem => ?_
        obtain ⟨path, -, hpath⟩ := List.mem_map.mp hmem
        contradiction
      · rfl
  induction arguments with
  | nil => rfl
  | cons argument rest ih =>
    rw [List.flatMap_cons, List.count_append, hone, ih, List.count_cons, Nat.add_comm]
    simp only [beq_iff_eq]

/-! Reading inputs -/

/-- What an input gives to read, if it can be opened. -/
def Source.opened (host : Host (StateM σ)) (s : σ) : Source → Except FileError Input
  | standardInput => .ok (answer host.standardInput s)
  | file path => answer (host.readFile path) s

/-- No roots can be had from an input. -/
inductive Source.Fails (host : Host (StateM σ)) (s : σ) (options : Options) (source : Source) :
    Prop where
  | notOpened {error : FileError} (h : source.opened host s = .error error)
  | notRead {input : Input} {reason : String} (h : source.opened host s = .ok input)
    (hbroken : input.ending = .broken reason)
  | notParsed {input : Input} {error : ReadError} (h : source.opened host s = .ok input)
    (hparse : (readDocuments input.bytes input.ending
      (options.maxDepth?.getD defaultLimit)).result = .error error)
  | notInferred {input : Input} {documents : List Value} {d : Value}
    (h : source.opened host s = .ok input)
    (hparse : (readDocuments input.bytes input.ending
      (options.maxDepth?.getD defaultLimit)).result = .ok documents)
    (hd : d ∈ documents) (hscalar : d.isScalar)

theorem observes_inferSource (hdiscreet : Discreet conventions host) (options : Options)
    (source : Source) : Observes (inferSource host options source) := by
  cases source with
  | standardInput =>
    refine (hdiscreet.standardInput.map _).bind fun opened => ?_
    cases opened <;> exact Observes.pure _
  | file path =>
    refine (hdiscreet.readFile path).bind fun opened => ?_
    cases opened <;> exact Observes.pure _

theorem observes_inferSources (hdiscreet : Discreet conventions host) (options : Options)
    (sources : List Source) : Observes (inferSources host options sources) := by
  induction sources with
  | nil => exact Observes.pure _
  | cons source rest ih =>
    rw [inferSources]
    exact (observes_inferSource hdiscreet options source).bind fun _ =>
      ih.bind fun _ => Observes.pure _

theorem answer_inferSource (hdiscreet : Discreet conventions host) (source : Source) :
    answer (inferSource host options source) s =
      match source.opened host s with
      | .error error => pure (.error (.cannotOpen source error))
      | .ok input =>
        (·.mapError (.cannotInfer source)) <$> infer options.allInitialisms
          (options.rootName source) input.bytes input.ending
          (options.maxDepth?.getD defaultLimit) := by
  cases source with
  | standardInput => rfl
  | file path =>
    refine ((hdiscreet.readFile path).answer_bind _ s).trans ?_
    rw [Source.opened]
    cases answer (host.readFile path) s <;> rfl

/-- A stream that breaks off cannot be read. -/
theorem readDocuments_ne_ok_of_broken {bytes : List UInt8} {reason : String} {limit : Nat}
    {documents : List Value} :
    (readDocuments bytes (.broken reason) limit).result ≠ .ok documents := by
  have hend : (Reader.start bytes (.broken reason) limit).cursor.ending = .broken reason := rfl
  intro h
  rcases Reader.readAll_broken hend [] .finished with ⟨_, _, herror, -⟩ | ⟨herror, -⟩
  all_goals
    rw [readDocuments, herror] at h
    contradiction

theorem not_fails_of_inferSource (hdiscreet : Discreet conventions host) {source : Source}
    {roots : List Root}
    (h : (answer (inferSource host options source) s).result = .ok roots) :
    ¬ source.Fails host s options := by
  rw [answer_inferSource hdiscreet] at h
  cases hopened : source.opened host s with
  | error error =>
    rw [hopened] at h
    contradiction
  | ok input =>
    rw [hopened] at h
    dsimp only at h
    rw [Reported.result_map] at h
    have hinferred : ∃ roots, (infer options.allInitialisms (options.rootName source) input.bytes
        input.ending (options.maxDepth?.getD defaultLimit)).result = .ok roots := by
      cases hresult : (infer options.allInitialisms (options.rootName source) input.bytes
          input.ending (options.maxDepth?.getD defaultLimit)).result with
      | error error =>
        rw [hresult] at h
        contradiction
      | ok roots => exact ⟨roots, rfl⟩
    obtain ⟨_, hinferred⟩ := hinferred
    obtain ⟨documents, hread, hdocuments, -⟩ := infer_eq_ok_iff.mp hinferred
    rintro (hnot | ⟨hinput, hbroken⟩ | ⟨hinput, hparse⟩ | ⟨hinput, hparse, hd, hscalar⟩)
    · rw [hopened] at hnot
      contradiction
    all_goals obtain rfl := Except.ok.inj (hopened.symm.trans hinput)
    · rw [hbroken] at hread
      exact readDocuments_ne_ok_of_broken hread
    · rw [hread] at hparse
      contradiction
    · rw [hread] at hparse
      obtain rfl := Except.ok.inj hparse
      exact hdocuments _ hd hscalar

/-- Where all inputs together have roots, each of them has. -/
theorem not_fails_of_inferSources (hdiscreet : Discreet conventions host) {sources : List Source}
    {roots : List Root} (h : (answer (inferSources host options sources) s).result = .ok roots) :
    ∀ source ∈ sources, ¬ source.Fails host s options := by
  induction sources generalizing roots with
  | nil => exact fun _ h => absurd h List.not_mem_nil
  | cons source rest ih =>
    rw [inferSources, (observes_inferSource hdiscreet options source).answer_bind,
      (observes_inferSources hdiscreet options rest).answer_bind] at h
    change (Bind.bind (answer (inferSource host options source) s) _ : Reported _).result = _ at h
    rw [Reported.result_bind, Reported.result_bind] at h
    cases hhere : (answer (inferSource host options source) s).result with
    | error failure =>
      rw [hhere] at h
      contradiction
    | ok here =>
      rw [hhere] at h
      cases hothers : (answer (inferSources host options rest) s).result with
      | error failure =>
        rw [hothers] at h
        contradiction
      | ok others =>
        exact List.forall_mem_cons.mpr ⟨not_fails_of_inferSource hdiscreet hhere, ih hothers⟩

/-! Runs -/

/-- The inputs of a run cannot all be used. -/
inductive Options.Unusable (conventions : Conventions (StateM σ)) (host : Host (StateM σ)) (s : σ)
    (options : Options) : Prop where
  | noPattern {argument complaint : String} (hargument : argument ∈ options.sources)
    (hpattern : isPattern argument) (h : answer (conventions.search argument) s = .error complaint)
  | unmatched {argument : String} (hargument : argument ∈ options.sources)
    (hpattern : isPattern argument) (h : answer (conventions.search argument) s = .ok [])
  | unreadable {argument complaint : String} {found : List (Except String String)}
    (hargument : argument ∈ options.sources) (hpattern : isPattern argument)
    (h : answer (conventions.search argument) s = .ok found) (hcomplaint : .error complaint ∈ found)
  | twice (h : 1 < options.sources.count "-")
  | failing {argument : String} {source : Source} (hargument : argument ∈ options.sources)
    (hsource : source ∈ sourcesOf conventions s argument) (h : source.Fails host s options)

/-- The arguments of a run are rejected, or its inputs cannot all be used. -/
inductive Refused (conventions : Conventions (StateM σ)) (host : Host (StateM σ)) (s : σ)
    (arguments : List String) : Prop where
  | rejected {complaint : String} (h : conventions.parse arguments = .error (.rejected complaint))
  | unusable {target : Target} {options : Options}
    (h : conventions.parse arguments = .ok (target, options))
    (hunusable : options.Unusable conventions host s)

theorem observes_load (hdiscreet : Discreet conventions host) (options : Options) :
    Observes (load conventions host options) := by
  rw [load]
  refine (observes_resolveAll hdiscreet options.sources).bind fun resolved => ?_
  split
  · exact Observes.pure _
  · exact Observes.ite (Observes.pure _)
      ((observes_inferSources hdiscreet options _).bind fun _ => Observes.pure _)

/-- Where the inputs are loaded, all of them can be used. -/
theorem not_unusable_of_load (hdiscreet : Discreet conventions host) {roots : List Root}
    (h : (answer (load conventions host options) s).result = .ok roots) :
    ¬ options.Unusable conventions host s := by
  rw [load, (observes_resolveAll hdiscreet options.sources).answer_bind] at h
  cases hresolved : answer (resolveAll conventions options.sources) s with
  | error failure =>
    rw [hresolved] at h
    contradiction
  | ok sources =>
    obtain ⟨hsources, hsound⟩ := answer_resolveAll hdiscreet hresolved
    rw [hresolved] at h
    dsimp only at h
    split at h
    · contradiction
    · rename_i honce
      rw [(observes_inferSources hdiscreet options sources).answer_bind] at h
      change (Functor.map _ (answer (inferSources host options sources) s) : Reported _).result = _
        at h
      rw [Reported.result_map] at h
      cases hloaded : (answer (inferSources host options sources) s).result with
      | error failure =>
        rw [hloaded] at h
        contradiction
      | ok roots =>
        have husable := not_fails_of_inferSources hdiscreet hloaded
        intro hunusable
        cases hunusable with
        | noPattern hargument hpattern hnone =>
          obtain ⟨paths, -, hfound⟩ := hsound _ hargument hpattern
          rw [hnone] at hfound
          contradiction
        | unmatched hargument hpattern hnone =>
          obtain ⟨paths, hne, hfound⟩ := hsound _ hargument hpattern
          rw [hnone] at hfound
          exact hne (List.map_eq_nil_iff.mp (Except.ok.inj hfound).symm)
        | unreadable hargument hpattern hmixed hcomplaint =>
          obtain ⟨paths, -, hfound⟩ := hsound _ hargument hpattern
          obtain rfl := Except.ok.inj (hmixed.symm.trans hfound)
          obtain ⟨path, -, hpath⟩ := List.mem_map.mp hcomplaint
          contradiction
        | twice htwice =>
          rw [hsources, count_standardInput] at honce
          exact honce htwice
        | failing hargument hsource hfails =>
          refine husable _ ?_ hfails
          rw [hsources]
          exact List.mem_flatMap.mpr ⟨_, hargument, hsource⟩

/-- A run whose arguments are rejected, or whose inputs cannot all be found, opened, read and
described, fails, prints nothing and leaves its surroundings as they were. This holds whatever the
conventions and the host are, as long as looking changes nothing. -/
theorem refused_run_leaves_no_trace (hdiscreet : Discreet conventions host)
    {arguments : List String} (h : Refused conventions host s arguments) :
    ∃ outcome : Outcome, (run conventions host arguments).run s = (outcome, s) ∧
      outcome.exitCode ≠ 0 ∧ outcome.output = "" := by
  rcases h with hrejected | ⟨haccepted, hunusable⟩
  · rw [run, hrejected]
    exact ⟨_, rfl, (by decide : (2 : UInt8) ≠ 0), rfl⟩
  · rw [run, haccepted]
    dsimp only
    rw [execute, (observes_load hdiscreet _).run_bind]
    split
    · exact ⟨_, rfl, (by decide : (1 : UInt8) ≠ 0), rfl⟩
    · rename_i hloaded
      exact absurd hunusable (not_unusable_of_load hdiscreet hloaded)

/-- The second of two inputs is no text in UTF-8, and the file to write is there already. -/
theorem refused_run_leaves_no_trace_of_broken_input :
    let host := FileTree.host (.ofText "")
    let conventions := Conventions.usual host
    let broken : Input := ⟨[0x22, 0xFF, 0x22], .finished⟩
    let tree : FileTree := ⟨[(["a.json"], .file (.ofText "\x7b\x7d")), (["b.json"], .file broken),
      (["out.rs"], .file (.ofText "kept"))], []⟩
    let arguments := ["rust", "-i", "a.json", "b.json", "-o", "out.rs"]
    Discreet conventions host ∧ Refused conventions host tree arguments ∧
      ∃ outcome : Outcome, (run conventions host arguments).run tree = (outcome, tree) ∧
        outcome.exitCode ≠ 0 ∧ outcome.output = "" := by
  intro host conventions broken tree arguments
  have hparse : conventions.parse arguments =
      .ok (.code, { inputs := ["a.json", "b.json"], out? := some "out.rs" }) := by
    cbv
  have hopened : (Source.file "b.json").opened host tree = .ok broken := by
    cbv
  let error : ReadError := .malformed .invalidUtf8 ⟨0, 1, 1⟩
  have hnext : (Reader.start broken.bytes .finished 128).next =
      (⟨.error error, []⟩, ⟨⟨[], ⟨3, 1, 4⟩, .finished⟩, 128, 0⟩) := by
    cbv
  have hread : (readDocuments broken.bytes .finished 128).result = .error error := by
    rw [readDocuments, Reader.readAll_of_error hnext]
  have hdiscreet : Discreet conventions host := discreet_usual _
  have hrefused : Refused conventions host tree arguments :=
    .unusable hparse (.failing (List.mem_cons_of_mem _ (List.mem_singleton_self _))
      (List.mem_singleton_self _) (.notParsed hopened hread))
  exact ⟨hdiscreet, hrefused, refused_run_leaves_no_trace hdiscreet hrefused⟩

end CommandLine

end Exemplar
