/-
# Manifests that are written are read back

A manifest is written into a directory that has none, and read from there:

    written   as a document, to a new file        `write_eq`
    read      from the document, as it was        `Codec.Documented.unmarshal_marshal`
    checked   and completed by its default        `Writable.checked_eq`

What is accepted is always checked, whatever the file and the codec: it has a name, a version and a
first source, and its depth is within the limits.
-/
import HamScript.Proofs.Files.Paths
import HamScript.Proofs.Project.Documents
import HamScript.Project

namespace HamScript.Manifest

open Files (Tree Place)

/-! ## Checks -/

/-- What may stand in a manifest that is to be written. -/
structure Writable (m : Manifest) : Prop where
  name_ne : m.name ≠ ""
  version_ne : m.version ≠ ""
  printable : m.Printable
  depth_nonneg : 0 ≤ m.maxCallDepth
  depth_le : m.maxCallDepth ≤ 20000

/-- A manifest with the default for a missing first source. -/
def completed (m : Manifest) : Manifest :=
  { m with main := if m.main = "" then defaultMain else m.main }

theorem Writable.checked_eq {m : Manifest} (h : m.Writable) : m.checked = .ok m.completed := by
  have hlow : ¬ m.maxCallDepth < 0 := Int.not_lt.mpr h.depth_nonneg
  have hhigh : ¬ (Settings.depthLimit : Int) < m.maxCallDepth := Int.not_lt.mpr h.depth_le
  rw [checked, if_neg h.name_ne, if_neg h.version_ne, if_neg hlow, if_neg hhigh]
  rfl

/-- A manifest has a document, and the document holds the manifest. -/
theorem Writable.ofBytes_marshal {codec : Codec} {typing : String → Typed}
    (hcodec : codec.Documented typing) {m : Manifest} (h : m.Writable) :
    ∃ bytes, codec.marshal m = .ok bytes ∧ ofBytes codec bytes = .ok m.completed := by
  have hword : m.maxCallDepth ≤ Decimal.maxWord := Int.le_trans h.depth_le (by decide)
  obtain ⟨bytes, hmarshal, hunmarshal⟩ :=
    hcodec.unmarshal_marshal h.printable h.depth_nonneg hword
  refine ⟨bytes, hmarshal, ?_⟩
  rw [ofBytes, hunmarshal]
  exact h.checked_eq

/-- What is accepted has been checked. -/
theorem checked_ok {m m' : Manifest} (h : m.checked = .ok m') :
    m'.name ≠ "" ∧ m'.version ≠ "" ∧ m'.main ≠ "" ∧ 0 ≤ m'.maxCallDepth ∧
      m'.maxCallDepth ≤ Settings.depthLimit := by
  rw [checked] at h
  split at h
  next => cases h
  next hname =>
    split at h
    next => cases h
    next hversion =>
      split at h
      next => cases h
      next hlow =>
        split at h
        next => cases h
        next hhigh =>
          obtain rfl := Except.ok.inj h
          refine ⟨hname, hversion, ?_, Int.not_lt.mp hlow, Int.not_lt.mp hhigh⟩
          dsimp only
          split
          next => decide
          next hmain => exact hmain

theorem ofBytes_ok {codec : Codec} {bytes : List UInt8} {m : Manifest}
    (h : ofBytes codec bytes = .ok m) :
    m.name ≠ "" ∧ m.version ≠ "" ∧ m.main ≠ "" ∧ 0 ≤ m.maxCallDepth ∧
      m.maxCallDepth ≤ Settings.depthLimit := by
  rw [ofBytes] at h
  split at h
  next => cases h
  next => exact checked_ok h

/-! ## Manifests on a disk -/

theorem isName_fileName : Files.IsName fileName :=
  ⟨⟨by decide, by decide, by decide⟩, by decide⟩

section
variable {codec : Codec} {t : Tree} {dir path : String} {place : Place} {m : Manifest}
  {bytes : List UInt8}

/-- A manifest in a directory, where there was none. -/
theorem write_eq (hmarshal : codec.marshal m = .ok bytes)
    (h : t.locate true (Files.clean dir) = .ok place) (hdir : t.takesNames place = true)
    (hfree : t.node? (place.down fileName) = none) :
    write codec Tree.disk dir m t =
      (.ok (), t.put (place.down fileName) (.file bytes .fresh)) := by
  have hlocate : t.locate false (pathIn dir) = .ok (place.down fileName) :=
    Tree.locate_join isName_fileName h (Tree.searchable_of_takesNames hdir) (.inl rfl)
  have hcreate := Tree.create_new hlocate hfree (by rwa [Files.Place.up_down]) bytes
  have hdisk : Tree.disk.create (pathIn dir) bytes t =
      (.ok (), t.put (place.down fileName) (.file bytes .fresh)) := by
    simp only [Tree.disk, hcreate]
    rfl
  rw [write, hmarshal]
  dsimp only
  rw [Tree.bind_eq hdisk]
  rfl

theorem read_eq (hread : t.read path = .ok bytes) (h : ofBytes codec bytes = .ok m) :
    read codec Tree.disk path t = (.ok m, t) := by
  have hdisk : Tree.disk.read path t = (.ok bytes, t) := congrArg (·, t) hread
  rw [read, Tree.bind_eq hdisk]
  dsimp only
  rw [h]
  rfl

theorem exists_ofBytes_of_read (h : (read codec Tree.disk path t).1 = .ok m) :
    ∃ bytes, ofBytes codec bytes = .ok m := by
  have hdisk : Tree.disk.read path t = (t.read path, t) := rfl
  rw [read, Tree.bind_eq hdisk] at h
  cases hread : t.read path with
  | error fault =>
      rw [hread] at h
      cases h
  | ok bytes =>
      rw [hread] at h
      dsimp only at h
      cases hbytes : ofBytes codec bytes with
      | error fault =>
          rw [hbytes] at h
          cases h
      | ok m' =>
          rw [hbytes] at h
          obtain rfl : m' = m := Except.ok.inj h
          exact ⟨bytes, hbytes⟩

end

/-- A manifest that is written into a directory without one is read back from there, completed by
the default for its first source.  What is read from any file is complete and within the limits. -/
theorem read_write (codec : Codec) :
    (∀ typing, codec.Documented typing → ∀ (m : Manifest) (t : Tree) (dir : String) (place : Place),
      m.Writable → t.locate true (Files.clean dir) = .ok place → t.takesNames place = true →
      t.node? (place.down fileName) = none →
      ∃ t', (write codec Tree.disk dir m).run t = (.ok (), t') ∧
        (read codec Tree.disk (pathIn dir)).run t' = (.ok m.completed, t')) ∧
    ∀ (m : Manifest) (t : Tree) (path : String), ((read codec Tree.disk path).run t).1 = .ok m →
      m.name ≠ "" ∧ m.version ≠ "" ∧ m.main ≠ "" ∧ 0 ≤ m.maxCallDepth ∧
        m.maxCallDepth ≤ 20000 := by
  constructor
  · intro typing hcodec m t dir place hm hdir hnames hfree
    obtain ⟨bytes, hmarshal, hbytes⟩ := hm.ofBytes_marshal hcodec
    refine ⟨_, write_eq hmarshal hdir hnames hfree, read_eq ?_ hbytes⟩
    -- the new file is no link, and the directory is where it was
    have hnode : (t.put (place.down fileName) (.file bytes .fresh)).node? (place.down fileName) =
        some (.file bytes .fresh) := Tree.node?_put_self _
    have hlocate : (t.put (place.down fileName) (.file bytes .fresh)).locate true (pathIn dir) =
        .ok (place.down fileName) :=
      Tree.locate_join isName_fileName (Tree.locate_put hfree bytes .fresh hdir)
        ((Tree.searchable_of_takesNames hnames).put hfree _) (.inr (Tree.noLink_of_file hnode))
    exact Tree.read_file hlocate hnode rfl
  · intro m t path h
    obtain ⟨bytes, hbytes⟩ := exists_ofBytes_of_read h
    exact ofBytes_ok hbytes

/-- A manifest whose name has to be quoted, with the largest depth and without a first source. -/
def odd : Manifest := ⟨"- \"a\": b # \\", "2001-02-03", "", 20000⟩

/-- A working directory with another one in it. -/
def workshop : Tree := .ofLists ["src/lib"] [("src/lib/a.ham", "")]

theorem read_write_odd :
    Codec.yaml.Documented Typed.ofPlain ∧ odd.Writable ∧
      workshop.locate true (Files.clean "../work/src/lib/..//.") = .ok ⟨["work", "src"]⟩ ∧
      workshop.takesNames ⟨["work", "src"]⟩ = true ∧
      workshop.node? ⟨["work", "src", "ham.yml"]⟩ = none ∧
      ∃ t', (write .yaml Tree.disk "../work/src/lib/..//." odd).run workshop = (.ok (), t') ∧
        (read .yaml Tree.disk "../work/src/ham.yml").run t' =
          (.ok { odd with main := "main.ham" }, t') := by
  have hpath : pathIn "../work/src/lib/..//." = "../work/src/ham.yml" := by decide +kernel
  have hclean : Files.clean "../work/src/lib/..//." = "../work/src" := by decide +kernel
  have hdir : workshop.locate true (Files.clean "../work/src/lib/..//.") =
      .ok ⟨["work", "src"]⟩ := by
    rw [hclean]
    rfl
  have hnames : workshop.takesNames ⟨["work", "src"]⟩ = true := by decide +kernel
  have hfree : workshop.node? ⟨["work", "src", "ham.yml"]⟩ = none := by decide +kernel
  have hchars : ([odd.name, odd.version, odd.main].all fun text =>
      text.toList.all Text.isPrintable) = true := by decide +kernel
  have hodd : odd.Writable :=
    ⟨by decide, by decide,
      fun text htext => List.all_eq_true.mp (List.all_eq_true.mp hchars text htext), by decide,
      by decide⟩
  have hwritten := (read_write .yaml).1 _ Codec.documented_yaml odd workshop
    "../work/src/lib/..//." ⟨["work", "src"]⟩ hodd hdir hnames hfree
  rw [hpath] at hwritten
  exact ⟨Codec.documented_yaml, hodd, hdir, hnames, hfree, hwritten⟩

end HamScript.Manifest
