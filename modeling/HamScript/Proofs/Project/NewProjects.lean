/-
# New projects

`ham init` makes a manifest in the working directory, and a first source unless something of that
name is there already.  It never touches what it finds: a manifest that is there stops it before
anything is made, and everything that was there stays as it was.  Where it has made the source, the
project can be run at once, and its program greets.

A first source that is a link is looked for where the link leads.  If nothing is there, it is made
there (`createMain_cases`).

The name is an argument like any other.  One that starts with a dash is taken for an option, and two
dashes alone for the end of the options, so such a name has to stand behind two dashes.
-/
import HamScript.Command
import HamScript.Proofs.Project.Arguments
import HamScript.Proofs.Project.Manifests
import HamScript.Proofs.Session.Ends
import HamScript.Proofs.Syntax.Realises

namespace HamScript.Command

open Files (Place Tree)
open Manifest (Codec Typed)

/-! ## The two files -/

/-- The place of the manifest of the working directory. -/
def manifestPlace (t : Tree) : Place := t.home.down Manifest.fileName

/-- The place of the first source of a new project. -/
def mainPlace (t : Tree) : Place := t.home.down Manifest.defaultMain

/-- The first source of a new project, as a file. -/
def newMain : Files.Node := .file newSource.toUTF8.data.toList .fresh

theorem mainPlace_ne_manifestPlace (t : Tree) : mainPlace t ≠ manifestPlace t := by
  intro heq
  have hnames := List.append_cancel_left (congrArg Place.names heq)
  exact absurd hnames (by decide)

theorem isName_defaultMain : Files.IsName Manifest.defaultMain :=
  ⟨⟨by decide, by decide, by decide⟩, by decide⟩

theorem join_defaultMain : Files.join "." Manifest.defaultMain = Manifest.defaultMain := by
  decide +kernel

theorem pathIn_here : Manifest.pathIn "." = Manifest.fileName := by
  decide +kernel

/-! ## Making the source -/

section
variable {t : Tree}

theorem createMain_old {kind : Files.NodeKind} (h : t.stat Manifest.defaultMain = .ok kind) :
    createMain Tree.disk t = (.ok (), t) := by
  have hstat : Tree.disk.stat Manifest.defaultMain t = (.ok kind, t) := congrArg (·, t) h
  rw [createMain, Tree.bind_eq hstat]
  rfl

/-- A first source that cannot be looked for is left alone too. -/
theorem createMain_refused {request : Files.Request} {path : String} {refusal : Files.Refusal}
    (h : t.stat Manifest.defaultMain = .error ⟨request, path, refusal⟩)
    (hmissing : refusal ≠ .missing) : createMain Tree.disk t = (.ok (), t) := by
  have hstat : Tree.disk.stat Manifest.defaultMain t = (.error ⟨request, path, refusal⟩, t) :=
    congrArg (·, t) h
  rw [createMain, Tree.bind_eq hstat]
  cases refusal with
  | missing => exact absurd rfl hmissing
  | _ => rfl

/-- A first source that is missing is written. -/
theorem createMain_missing {request : Files.Request} {path : String}
    (h : t.stat Manifest.defaultMain = .error ⟨request, path, .missing⟩) :
    createMain Tree.disk t =
      Tree.commit (t.write Manifest.defaultMain newSource.toUTF8.data.toList) t := by
  have hstat : Tree.disk.stat Manifest.defaultMain t = (.error ⟨request, path, .missing⟩, t) :=
    congrArg (·, t) h
  rw [createMain, Tree.bind_eq hstat, join_defaultMain]
  rfl

theorem createMain_new (hnames : t.takesNames t.home = true) (h : t.node? (mainPlace t) = none) :
    createMain Tree.disk t = (.ok (), t.put (mainPlace t) newMain) := by
  have hlocate : t.locate true Manifest.defaultMain = .ok (mainPlace t) := by
    refine Tree.locate_name isName_defaultMain (Tree.searchable_of_takesNames hnames) (.inr ?_)
    intro target htarget
    exact nomatch htarget.symm.trans h
  have hstat : t.stat Manifest.defaultMain =
      .error ⟨.stat, Manifest.defaultMain, .missing⟩ := by
    rw [Tree.stat, hlocate]
    dsimp only
    rw [h]
  have hup : t.takesNames (mainPlace t).up = true := by
    rw [mainPlace, Files.Place.up_down]
    exact hnames
  have hwrite : t.write Manifest.defaultMain newSource.toUTF8.data.toList =
      .ok (t.put (mainPlace t) newMain) := by
    rw [Tree.write, hlocate]
    dsimp only
    rw [h]
    exact if_pos hup
  rw [createMain_missing hstat, hwrite]
  rfl

/-- What making the source can do: nothing, or make it where nothing was. -/
inductive MainMade (t : Tree) : Except Files.PathFault Unit → Tree → Prop
  | kept (r : Except Files.PathFault Unit) : MainMade t r t
  | made {place : Place} :
      t.locate true Manifest.defaultMain = .ok place → t.node? place = none →
      MainMade t (.ok ()) (t.put place newMain)

theorem createMain_cases (t : Tree) :
    ∃ r t', createMain Tree.disk t = (r, t') ∧ MainMade t r t' := by
  cases hstat : t.stat Manifest.defaultMain with
  | ok kind => exact ⟨_, _, createMain_old hstat, .kept _⟩
  | error fault =>
      obtain ⟨request, path, refusal⟩ := fault
      by_cases hmissing : refusal = .missing
      · subst hmissing
        rw [createMain_missing hstat, Tree.write]
        rw [Tree.stat] at hstat
        cases hlocate : t.locate true Manifest.defaultMain with
        | error r => exact ⟨_, _, rfl, .kept _⟩
        | ok place =>
            rw [hlocate] at hstat
            dsimp only at hstat ⊢
            cases hnode : t.node? place with
            | some n =>
                rw [hnode] at hstat
                cases n <;> cases hstat
            | none =>
                dsimp only
                rw [Tree.addFile]
                split
                next => exact ⟨_, _, rfl, .made hlocate hnode⟩
                next => exact ⟨_, _, rfl, .kept _⟩
      · exact ⟨_, _, createMain_refused hstat hmissing, .kept _⟩

namespace MainMade

variable {t' : Tree} {r : Except Files.PathFault Unit} {place : Place}

theorem home_eq (h : MainMade t r t') : t'.home = t.home := by
  cases h <;> rfl

/-- What was there stays. -/
theorem node?_of_some (h : MainMade t r t') {n : Files.Node} (hn : t.node? place = some n) :
    t'.node? place = some n := by
  cases h with
  | kept => exact hn
  | made _ hnone => exact Tree.node?_put_of_some hnone hn _

/-- What has changed is the source, which is found by its name. -/
theorem node?_cases (h : MainMade t r t') (place : Place) :
    t'.node? place = t.node? place ∨
      r = .ok () ∧ t'.locate true Manifest.defaultMain = .ok place ∧
        t'.node? place = some newMain := by
  cases h with
  | kept => exact .inl rfl
  | @made there hlocate hnone =>
      by_cases heq : place = there
      · subst heq
        exact .inr ⟨rfl, Tree.locate_put hnone _ .fresh hlocate, Tree.node?_put_self _⟩
      · exact .inl (Tree.node?_put_of_ne heq _)

end MainMade

/-! ## Making the project -/

/-- A directory after its manifest has been made. -/
def withManifest (t : Tree) (bytes : List UInt8) : Tree :=
  t.put (manifestPlace t) (.file bytes .fresh)

theorem node?_withManifest (bytes : List UInt8) :
    (withManifest t bytes).node? (manifestPlace t) = some (.file bytes .fresh) :=
  Tree.node?_put_self _

theorem node?_withManifest_of_ne {place : Place} (h : place ≠ manifestPlace t)
    (bytes : List UInt8) : (withManifest t bytes).node? place = t.node? place :=
  Tree.node?_put_of_ne h _

theorem takesNames_withManifest (h : t.takesNames t.home = true) (bytes : List UInt8) :
    (withManifest t bytes).takesNames t.home = true := by
  have hne : t.home ≠ manifestPlace t := by
    intro heq
    have hlength := congrArg (List.length ∘ Place.names) heq
    simp [manifestPlace, Place.down] at hlength
  rw [Tree.takesNames, node?_withManifest_of_ne hne]
  exact h

/-- Something that is found at the end of all links is still found there. -/
theorem stat_withManifest (hfree : t.node? (manifestPlace t) = none) {path : String}
    {kind : Files.NodeKind} (h : t.stat path = .ok kind) (bytes : List UInt8) :
    (withManifest t bytes).stat path = .ok kind := by
  obtain ⟨place, n, hlocate, hnode⟩ := Tree.stat_eq_ok h
  have hlocate' : (withManifest t bytes).locate true path = .ok place :=
    Tree.locate_put hfree bytes .fresh hlocate
  have hnode' : (withManifest t bytes).node? place = some n := Tree.node?_put_of_some hfree hnode _
  rw [Tree.stat, hlocate] at h
  rw [Tree.stat, hlocate']
  dsimp only at h ⊢
  rw [hnode] at h
  rw [hnode']
  exact h

variable {codec : Codec} {bytes : List UInt8} {name : String}

theorem initProject_refused (hmarshal : codec.marshal (newManifest name) = .ok bytes)
    (h : t.node? (manifestPlace t) ≠ none ∨ t.takesNames t.home = false) (verbose : Bool) :
    ∃ message, initProject codec Tree.disk verbose name t = (.failed message, t) := by
  obtain ⟨fault, hcreate⟩ := Tree.create_name Manifest.isName_fileName h bytes
  have hdisk : Tree.disk.create (Manifest.pathIn ".") bytes t = (.error fault, t) := by
    simp only [Tree.disk, pathIn_here, hcreate]
    rfl
  have hwrite : Manifest.write codec Tree.disk "." (newManifest name) t =
      (.error (.path fault), t) := by
    rw [Manifest.write, hmarshal]
    dsimp only
    rw [Tree.bind_eq hdisk]
    rfl
  refine ⟨fault.message, ?_⟩
  rw [initProject, Tree.bind_eq hwrite]
  rfl

/-- A new manifest, and then the source. -/
theorem initProject_eq (hmarshal : codec.marshal (newManifest name) = .ok bytes)
    (hfree : t.node? (manifestPlace t) = none) (hnames : t.takesNames t.home = true)
    {made : Except Files.PathFault Unit} {t' : Tree}
    (h : createMain Tree.disk (withManifest t bytes) = (made, t')) (verbose : Bool) :
    initProject codec Tree.disk verbose name t =
      ((reportMain made).after verbose [.wrote (Manifest.pathIn ".")], t') := by
  have hhere := Tree.reaches_here (Tree.searchable_of_takesNames hnames)
  have hwrite : Manifest.write codec Tree.disk "." (newManifest name) t =
      (.ok (), withManifest t bytes) :=
    Manifest.write_eq hmarshal hhere.spelled hnames hfree
  rw [initProject, Tree.bind_eq hwrite]
  dsimp only
  rw [Tree.bind_eq h]
  rfl

end

/-! ## Running it -/

/-- Whether a step has greeted and done nothing else. -/
def greets (st : Step) : Bool :=
  match st.result with
  | .value _ => st.output == "Hello from Ham\n"
  | _ => false

theorem greets_conclude (s s' : Session) (o : Outcome Value) :
    greets (s.conclude o) = greets (s'.conclude o) := by
  cases o <;> rfl

/-- The source of a new project greets, whatever the bound on turns and the name of its file. -/
theorem runSource_newSource (maxTurns : Nat) (file : String) :
    (runSource maxTurns false file newSource.toUTF8.data.toList 0).code = 0 ∧
      (runSource maxTurns false file newSource.toUTF8.data.toList 0).output =
        .text "Hello from Ham\n" := by
  have hgreets : ((Program.ofGlyphs (Source.Glyph.ofText newSource) .finished).toOption.map fun p =>
      greets ((Session.start ⟨"", Settings.defaultDepth⟩).run 0 false p)) = some true := by
    decide +kernel
  obtain ⟨p, hp, hgreets⟩ := Option.map_eq_some_iff.mp hgreets
  have hparse := eq_ok_of_toOption hp
  have hsettings : Settings.ofRequest file 0 =
      ⟨if file = "" then "<input>" else file, Settings.defaultDepth⟩ := rfl
  rw [runSource, Source.Glyph.ofBytes_toUTF8, hparse, hsettings]
  dsimp only
  generalize (if file = "" then "<input>" else file) = shown
  have hfile : greets ((Session.start ⟨shown, Settings.defaultDepth⟩).run 0 false p) = true :=
    (greets_conclude _ _ _).trans hgreets
  generalize Session.start ⟨shown, Settings.defaultDepth⟩ = session at hfile ⊢
  have hsteady : session.run maxTurns false p = session.run 0 false p := by
    refine Session.steady_run session false p 0 maxTurns (Nat.zero_le maxTurns) ?_
    intro hexhausted
    rw [greets, hexhausted] at hfile
    cases hfile
  rw [hsteady, reportStep]
  unfold greets at hfile
  split at hfile
  next v hvalue =>
    rw [hvalue]
    exact ⟨rfl, congrArg Shown.text (beq_iff_eq.mp hfile)⟩
  next => cases hfile

theorem runProject_none (maxTurns : Nat) (verbose : Bool) (p : Project) :
    runProject maxTurns verbose p none =
      (runSource maxTurns verbose p.entry p.source p.depth).after verbose p.notices := by
  rw [runProject, if_pos (by rfl)]
  rfl

/-- A project is loaded from a directory with its manifest and its source. -/
theorem load_newMain {codec : Codec} {t : Tree} {bytes : List UInt8} {name path : String}
    (hbytes : Manifest.ofBytes codec bytes = .ok (newManifest name))
    (hsearch : t.Searchable t.home)
    (hmanifest : t.node? (manifestPlace t) = some (.file bytes .fresh))
    (hmain : t.node? (mainPlace t) = some newMain) (hpath : t.Reaches path t.home) :
    Project.load codec Tree.disk path t =
      (.ok ⟨path, Files.join path Manifest.defaultMain, newSource.toUTF8.data.toList,
        some (newManifest name)⟩, t) := by
  have hlocate : t.locate true (Manifest.pathIn path) = .ok (manifestPlace t) :=
    Tree.locate_join Manifest.isName_fileName hpath.spelled hsearch
      (.inr (Tree.noLink_of_file hmanifest))
  have hhere : Tree.disk.stat path t = (.ok .directory, t) :=
    congrArg (·, t) (Tree.stat_directory hpath.written hsearch)
  have hstat : Tree.disk.stat (Manifest.pathIn path) t = (.ok .file, t) :=
    congrArg (·, t) (Tree.stat_file hlocate hmanifest)
  have hread : Manifest.read codec Tree.disk (Manifest.pathIn path) t =
      (.ok (newManifest name), t) :=
    Manifest.read_eq (Tree.read_file hlocate hmanifest rfl) hbytes
  have hentry : Tree.disk.read (Files.join path (newManifest name).main) t =
      (.ok newSource.toUTF8.data.toList, t) :=
    congrArg (·, t) (Tree.read_file (Tree.locate_join isName_defaultMain hpath.spelled hsearch
      (.inr (Tree.noLink_of_file hmain))) hmain rfl)
  rw [Project.load, Tree.bind_eq hhere]
  dsimp only
  rw [Project.loadDirectory, Tree.bind_eq hstat]
  dsimp only
  rw [Tree.bind_eq hread]
  dsimp only
  rw [Project.loadEntry, Tree.bind_eq hentry]
  rfl

/-- The ways to name the working directory to a command, or to leave it unnamed. -/
inductive NamesHere (t : Tree) : List String → Prop
  | bare : NamesHere t []
  | path {path : String} {args : List String} :
      Cli.Gives path args → t.Reaches path t.home → NamesHere t args
  /-- A path that meets no link need not be looked at in its shortest spelling. -/
  | straight {path : String} {args : List String} :
      Cli.Gives path args → path ≠ "" →
      t.stretch true (Tree.startFrom t.home path) (Files.parts path) = .ok (.arrived t.home) →
      NamesHere t args

theorem NamesHere.answer_eq {cli : Cli} (hcli : cli.Documented) {t : Tree} {args : List String}
    (h : NamesHere t args) (hsearch : t.Searchable t.home) (codec : Codec) (maxTurns : Nat) :
    ∃ path, t.Reaches path t.home ∧
      answer cli codec Tree.disk maxTurns ("run" :: args) =
        runPath codec Tree.disk maxTurns false path none := by
  have hgiven : ∀ {path : String} {args : List String}, Cli.Gives path args →
      t.Reaches path t.home → ∃ path, t.Reaches path t.home ∧
        answer cli codec Tree.disk maxTurns ("run" :: args) =
          runPath codec Tree.disk maxTurns false path none := by
    intro path args hgives hpath
    have hparse : cli.parse ("run" :: args) = .act .run ⟨false, none, [path]⟩ :=
      hcli.parse_gives hgives .run
    have hne : path ≠ "" := by
      rintro rfl
      cases hpath.written
    have htorun : pathToRun ⟨false, none, [path]⟩ = path := if_neg hne
    refine ⟨path, hpath, ?_⟩
    rw [answer, hparse]
    dsimp only
    rw [perform, htorun]
  cases h with
  | bare =>
      have hparse : cli.parse ["run"] = .act .run ⟨false, none, []⟩ :=
        hcli.positional .run [] fun _ hfirst => by cases hfirst
      refine ⟨".", Tree.reaches_here hsearch, ?_⟩
      rw [answer, hparse]
      rfl
  | path hgives hpath => exact hgiven hgives hpath
  | straight hgives hne hstretch => exact hgiven hgives (Tree.reaches_of_stretch hne hstretch)

/-- Running a project of which the manifest and the source have been made. -/
theorem answer_run_newMain {cli : Cli} (hcli : cli.Documented) {codec : Codec} {t : Tree}
    {bytes : List UInt8} {name : String} {args : List String}
    (hbytes : Manifest.ofBytes codec bytes = .ok (newManifest name))
    (hsearch : t.Searchable t.home)
    (hmanifest : t.node? (manifestPlace t) = some (.file bytes .fresh))
    (hmain : t.node? (mainPlace t) = some newMain) (hargs : NamesHere t args) (maxTurns : Nat) :
    ∃ r, answer cli codec Tree.disk maxTurns ("run" :: args) t = (r, t) ∧ r.code = 0 ∧
      r.output = .text "Hello from Ham\n" := by
  obtain ⟨path, hpath, hanswer⟩ := hargs.answer_eq hcli hsearch codec maxTurns
  obtain ⟨hcode, houtput⟩ := runSource_newSource maxTurns (Files.join path Manifest.defaultMain)
  have hrun : runProject maxTurns false ⟨path, Files.join path Manifest.defaultMain,
      newSource.toUTF8.data.toList, some (newManifest name)⟩ none =
        (runSource maxTurns false (Files.join path Manifest.defaultMain)
          newSource.toUTF8.data.toList 0).after false [.loaded (newManifest name)] :=
    runProject_none maxTurns false _
  generalize runSource maxTurns false (Files.join path Manifest.defaultMain)
    newSource.toUTF8.data.toList 0 = r at hcode houtput hrun
  refine ⟨r.after false [.loaded (newManifest name)], ?_, hcode, houtput⟩
  rw [hanswer, runPath, Tree.bind_eq (load_newMain hbytes hsearch hmanifest hmain hpath), ← hrun]
  rfl

/-! ## The commands -/

theorem answer_init {cli : Cli} (hcli : cli.Documented) {name : String} {args : List String}
    (hargs : Cli.Gives name args) (hne : name ≠ "") (codec : Codec) (maxTurns : Nat) :
    answer cli codec Tree.disk maxTurns ("init" :: args) =
      initProject codec Tree.disk false name := by
  have hparse : cli.parse ("init" :: args) = .act .init ⟨false, none, [name]⟩ :=
    hcli.parse_gives hargs .init
  rw [answer, hparse]
  exact if_neg hne

theorem writable_newManifest {name : String} (hne : name ≠ "")
    (hprintable : ∀ c ∈ name.toList, Text.isPrintable c = true) : (newManifest name).Writable := by
  have hrest : (["0.1.0", Manifest.defaultMain].all fun text => text.toList.all Text.isPrintable) =
      true := by decide +kernel
  refine ⟨hne, show "0.1.0" ≠ "" by decide, ?_, Int.le_refl 0, show (0 : Int) ≤ 20000 by decide⟩
  intro text htext
  rcases List.mem_cons.mp htext with rfl | htext
  · exact hprintable
  · exact List.all_eq_true.mp (List.all_eq_true.mp hrest text htext)

/-- Making a project where there is a manifest, or where no file can be made, fails and changes
nothing.  Elsewhere it makes the manifest, and leaves all that was there as it was.  If nothing is
called like the first source, it makes that too, and the project can be run and greets; if something
is found under that name, it makes no more.  If there is only a link that leads nowhere, it makes the
source at the end of the link, or fails. -/
theorem init_makes_project {cli : Cli} (hcli : cli.Documented) {codec : Codec}
    {typing : String → Typed} (hcodec : codec.Documented typing) {name : String}
    {args : List String} (hargs : Cli.Gives name args) (hne : name ≠ "")
    (hprintable : ∀ c ∈ name.toList, Text.isPrintable c = true) (t : Tree) (maxTurns : Nat) :
    (t.node? (manifestPlace t) ≠ none ∨ t.takesNames t.home = false →
      ∃ r, (answer cli codec Tree.disk maxTurns ("init" :: args)).run t = (r, t) ∧ r.code = 1) ∧
    (t.node? (manifestPlace t) = none → t.takesNames t.home = true →
      ∃ r t' bytes, (answer cli codec Tree.disk maxTurns ("init" :: args)).run t = (r, t') ∧
        t'.home = t.home ∧ codec.marshal (newManifest name) = .ok bytes ∧
        t'.node? (manifestPlace t) = some (.file bytes .fresh) ∧
        (∀ place, t.node? place ≠ none → t'.node? place = t.node? place) ∧
        (t.node? (mainPlace t) = none →
          r.code = 0 ∧ t'.node? (mainPlace t) = some newMain ∧
          (∀ place, place ≠ manifestPlace t → place ≠ mainPlace t →
            t'.node? place = t.node? place) ∧
          ∀ args' maxTurns', NamesHere t' args' →
            ∃ r', (answer cli codec Tree.disk maxTurns' ("run" :: args')).run t' = (r', t') ∧
              r'.code = 0 ∧ r'.output = .text "Hello from Ham\n") ∧
        (∀ kind, t.stat Manifest.defaultMain = .ok kind →
          r.code = 0 ∧ ∀ place, place ≠ manifestPlace t → t'.node? place = t.node? place) ∧
        (∀ place, place ≠ manifestPlace t → t'.node? place = t.node? place ∨
          r.code = 0 ∧ t'.locate true Manifest.defaultMain = .ok place ∧
            t'.node? place = some newMain) ∧
        (r.code = 0 ∨ r.code = 1)) := by
  have hwritable := writable_newManifest hne hprintable
  obtain ⟨bytes, hmarshal, hbytes⟩ := hwritable.ofBytes_marshal hcodec
  rw [answer_init hcli hargs hne]
  constructor
  · intro hrefused
    obtain ⟨message, hinit⟩ := initProject_refused hmarshal hrefused false
    exact ⟨_, hinit, rfl⟩
  intro hfree hnames
  have hnames' := takesNames_withManifest hnames bytes
  obtain ⟨made, t', hmain, hmade⟩ := createMain_cases (withManifest t bytes)
  have hinit := initProject_eq hmarshal hfree hnames hmain false
  have hthere : ∀ place, t.node? place ≠ none → place ≠ manifestPlace t := by
    rintro _ hplace rfl
    exact hplace hfree
  refine ⟨_, t', bytes, hinit, ?_, hmarshal, ?_, ?_, ?_, ?_, ?_, ?_⟩
  · exact hmade.home_eq
  · exact hmade.node?_of_some (node?_withManifest bytes)
  · intro place hplace
    have hsame := node?_withManifest_of_ne (hthere place hplace) bytes
    obtain ⟨n, hn⟩ := Option.ne_none_iff_exists'.mp hplace
    rw [hn] at hsame ⊢
    exact hmade.node?_of_some hsame
  · intro hnone
    have hnone' : (withManifest t bytes).node? (mainPlace t) = none :=
      (node?_withManifest_of_ne (mainPlace_ne_manifestPlace t) bytes).trans hnone
    have hnew := createMain_new hnames' hnone'
    obtain ⟨rfl, rfl⟩ := Prod.mk.inj (hmain.symm.trans hnew)
    have hsource : ((withManifest t bytes).put (mainPlace t) newMain).node? (mainPlace t) =
        some newMain := Tree.node?_put_self _
    refine ⟨rfl, hsource, ?_, ?_⟩
    · intro place hmanifest hmain
      rw [← node?_withManifest_of_ne hmanifest bytes]
      exact Tree.node?_put_of_ne hmain _
    · intro args' maxTurns' hargs'
      have hsearch := (Tree.searchable_of_takesNames hnames').put hnone' newMain
      have hmanifest := Tree.node?_put_of_some hnone' (node?_withManifest bytes) newMain
      exact answer_run_newMain hcli hbytes hsearch hmanifest hsource hargs' maxTurns'
  · intro kind hkind
    have hold := createMain_old (stat_withManifest hfree hkind bytes)
    obtain ⟨rfl, rfl⟩ := Prod.mk.inj (hmain.symm.trans hold)
    exact ⟨rfl, fun place hplace => node?_withManifest_of_ne hplace bytes⟩
  · intro place hplace
    rw [← node?_withManifest_of_ne hplace bytes]
    rcases hmade.node?_cases place with hsame | ⟨rfl, hfound⟩
    · exact .inl hsame
    · exact .inr ⟨rfl, hfound⟩
  · cases made with
    | ok u => exact .inl rfl
    | error fault => exact .inr rfl

/-- A working directory with a file that has nothing to do with projects. -/
def notes : Tree := .ofLists [] [("notes.txt", "todo")]

/-- The way to the working directory by the one above. -/
theorem namesHere_notes {t : Tree} (hhome : t.home = notes.home)
    (h : ∀ place, notes.node? place ≠ none → t.node? place = notes.node? place) :
    NamesHere t ["../work//"] := by
  have hwork : t.node? t.home = some (.directory .full) := by
    rw [hhome, h _ (by decide +kernel)]
    decide +kernel
  have htop : t.node? .top = some (.directory .full) := by
    rw [h _ (by decide +kernel)]
    decide +kernel
  have hup : t.home.up = .top := by
    rw [hhome]
    rfl
  have hdown : Place.top.down "work" = t.home := by
    rw [hhome]
    rfl
  have hparts : Files.parts "../work//" = ["..", "work", "", ""] := by decide +kernel
  have hlink : t.NoLink (Place.top.down "work") := by
    rw [hdown]
    intro target
    rw [hwork]
    exact fun hdirectory => nomatch hdirectory
  refine .straight (.alone (.inl (by decide))) (by decide) ?_
  rw [hparts]
  show t.stretch true t.home _ = _
  rw [(Tree.Steps.up ⟨_, hwork, rfl⟩).stretch_eq, hup,
    (Tree.Steps.down ⟨_, htop, rfl⟩ ⟨by decide, by decide, by decide⟩ hlink).stretch_eq, hdown,
    (Tree.Steps.empty hwork).stretch_eq, (Tree.Steps.empty hwork).stretch_eq]
  rfl

/-- A name that looks like an option, behind two dashes; and the project is run by way of the
directory above. -/
theorem init_makes_project_dashed :
    Cli.flags.Documented ∧ Codec.yaml.Documented Typed.ofPlain ∧
      Cli.Gives "-x: #" ["--", "-x: #"] ∧ notes.node? (manifestPlace notes) = none ∧
      notes.takesNames notes.home = true ∧ notes.node? (mainPlace notes) = none ∧
      ∃ r t' bytes, (answer .flags .yaml Tree.disk 0 ["init", "--", "-x: #"]).run notes = (r, t') ∧
        r.code = 0 ∧ Codec.yaml.marshal (newManifest "-x: #") = .ok bytes ∧
        t'.node? (manifestPlace notes) = some (.file bytes .fresh) ∧
        t'.node? (mainPlace notes) = some newMain ∧
        t'.node? (notes.home.down "notes.txt") = notes.node? (notes.home.down "notes.txt") ∧
        ∃ r', (answer .flags .yaml Tree.disk 0 ["run", "../work//"]).run t' = (r', t') ∧
          r'.code = 0 ∧ r'.output = .text "Hello from Ham\n" := by
  have hchars : ("-x: #".toList.all Text.isPrintable) = true := by decide +kernel
  have hfree : notes.node? (manifestPlace notes) = none := by decide +kernel
  have hnames : notes.takesNames notes.home = true := by decide +kernel
  have hnone : notes.node? (mainPlace notes) = none := by decide +kernel
  have hnotes : notes.node? (notes.home.down "notes.txt") ≠ none := by decide +kernel
  obtain ⟨r, t', bytes, hrun, hhome, hmarshal, hmanifest, hkept, hnew, -⟩ :=
    (init_makes_project Cli.documented_flags Codec.documented_yaml .afterDashes (by decide)
      (List.all_eq_true.mp hchars) notes 0).2 hfree hnames
  obtain ⟨hcode, hmain, -, hgreets⟩ := hnew hnone
  exact ⟨Cli.documented_flags, Codec.documented_yaml, .afterDashes, hfree, hnames, hnone, r, t',
    bytes, hrun, hcode, hmarshal, hmanifest, hmain, hkept _ hnotes,
    hgreets _ 0 (namesHere_notes hhome hkept)⟩

/-- A working directory with nothing in it. -/
def vacant : Tree := .bare ⟨["work"]⟩

/-- A working directory in which no file can be made. -/
def closed : Tree := vacant.put ⟨["work"]⟩ (.directory ⟨true, false, true⟩)

/-- A working directory whose first source is a link to another name, which nothing has. -/
def dangling : Tree := vacant.put (mainPlace vacant) (.link "other.ham")

/-- Two dashes are printable and no name: the project is refused, and nothing is made.  Neither is it
made in a directory that is closed.  And where the first source is a link that leads nowhere, another
file is made. -/
theorem init_exceptions :
    ("--" ≠ "" ∧ (∀ c ∈ "--".toList, Text.isPrintable c = true) ∧
      vacant.node? (manifestPlace vacant) = none ∧ vacant.takesNames vacant.home = true ∧
      ∀ maxTurns, ∃ r, (answer .flags .yaml Tree.disk maxTurns ["init", "--"]).run vacant =
        (r, vacant) ∧ r.code = 1) ∧
    (closed.node? (manifestPlace closed) = none ∧
      ∀ maxTurns, ∃ r, (answer .flags .yaml Tree.disk maxTurns ["init", "demo"]).run closed =
        (r, closed) ∧ r.code = 1) ∧
    (dangling.node? (manifestPlace dangling) = none ∧
      dangling.node? (mainPlace dangling) = some (.link "other.ham") ∧
      dangling.node? (dangling.home.down "other.ham") = none ∧
      ∀ maxTurns, ∃ r t', (answer .flags .yaml Tree.disk maxTurns ["init", "demo"]).run dangling =
        (r, t') ∧ r.code = 0 ∧ t'.node? (dangling.home.down "other.ham") = some newMain) := by
  have hchars : ("--".toList.all Text.isPrintable) = true := by decide +kernel
  have hdemo : Cli.Gives "demo" ["demo"] := .alone (.inl (by decide))
  have hparse : Cli.flags.parse ["init", "--"] = .act .init ⟨false, none, []⟩ :=
    Cli.documented_flags.terminated .init []
  have hmarshal : Codec.yaml.marshal (newManifest "demo") =
      .ok (newManifest "demo").toText.toUTF8.data.toList := rfl
  refine ⟨⟨by decide, List.all_eq_true.mp hchars, by decide +kernel, by decide +kernel, ?_⟩,
    ⟨by decide +kernel, ?_⟩, by decide +kernel, by decide +kernel, by decide +kernel, ?_⟩
  · intro maxTurns
    rw [answer, hparse]
    exact ⟨_, rfl, rfl⟩
  · intro maxTurns
    rw [answer_init Cli.documented_flags hdemo (by decide)]
    obtain ⟨message, hinit⟩ :=
      initProject_refused (t := closed) hmarshal (.inr (by decide +kernel)) false
    exact ⟨_, hinit, rfl⟩
  · intro maxTurns
    rw [answer_init Cli.documented_flags hdemo (by decide)]
    generalize (newManifest "demo").toText.toUTF8.data.toList = bytes at hmarshal
    have hstat : (withManifest dangling bytes).stat Manifest.defaultMain =
        .error ⟨.stat, Manifest.defaultMain, .missing⟩ := rfl
    have hwrite : (withManifest dangling bytes).write Manifest.defaultMain
        newSource.toUTF8.data.toList =
          .ok ((withManifest dangling bytes).put (dangling.home.down "other.ham") newMain) := rfl
    have hmain : createMain Tree.disk (withManifest dangling bytes) =
        (.ok (), (withManifest dangling bytes).put (dangling.home.down "other.ham") newMain) := by
      rw [createMain_missing hstat, hwrite]
      rfl
    exact ⟨_, _, initProject_eq hmarshal (by decide +kernel) (by decide +kernel) hmain false, rfl,
      Tree.node?_put_self _⟩

end HamScript.Command
