import Fleet.Disk
import Fleet.Proofs.Table

/-!
# What happens to files

Making folders keeps all files, and a path that leads somewhere still leads there. Writing a file
changes no folder and no other file, so that the path of the file leads where it did.

A path can lead nowhere, although it leads to a file once the folders on the way to it are made:
this takes two dots after a folder that is missing.

## Main definitions

* `FileTree.Grows` — some folders were made.
* `FileTree.Nested` — all files and folders are in folders.
* `FileTree.Opens` — a path leads somewhere only once its folders are made.

## Main statements

* `FileTree.exists_of_write?` — the one file that is written.
* `FileTree.read?_of_write?` — a file that was written has its content.
* `FileTree.Nested.not_opens` — a path without two dots that leads to a file always does.
-/

namespace Fleet.FileTree

variable {t t' : FileTree} {text : String} {content : Bytes} {p trail : Trail}
  {names : List String}

/-! ### Where paths lead -/

/-- Where a path leads depends on the folders only. -/
theorem walk?_congr (h : t'.folders = t.folders) (p : Trail) (names : List String) :
    t'.walk? p names = t.walk? p names := by
  induction names generalizing p with
  | nil => rfl
  | cons name rest ih =>
    have hfolder : t'.isFolder p = t.isFolder p := by simp only [isFolder, h]
    rw [walk?, walk?, hfolder, ih, ih, ih]

theorem locate?_eq_some_iff : t.locate? text = some trail ↔
    ∃ path, FilePath.ofText? text = some path ∧
      t.walk? (t.origin path) path.names = some trail := by
  simp only [locate?, Option.bind_eq_bind, Option.bind_eq_some_iff]

/-- The names of a path are in folders. -/
theorem walk?_cons_eq_some_iff {name : String} {rest : List String} :
    t.walk? p (name :: rest) = some trail ↔ t.isFolder p = true ∧
      t.walk? (if name = "." then p else if name = ".." then p.dropLast else p ++ [name]) rest =
        some trail := by
  rw [walk?]
  cases t.isFolder p with
  | false => simp
  | true =>
    rw [if_neg (by simp)]
    split
    · simp
    · split <;> simp

/-- A path without two dots goes down only. -/
theorem prefix_of_walk? (hnames : ".." ∉ names) (h : t.walk? p names = some trail) :
    p <+: trail := by
  induction names generalizing p with
  | nil =>
    cases h
    exact List.prefix_rfl
  | cons name rest ih =>
    have hdown := ih (fun hrest => hnames (.tail _ hrest)) (walk?_cons_eq_some_iff.1 h).2
    split at hdown
    · exact hdown
    · have hback : name ≠ ".." := by
        rintro rfl
        exact hnames (.head _)
      rw [if_neg hback] at hdown
      exact (List.prefix_append p [name]).trans hdown

/-! ### Making folders -/

/-- Some folders were made. -/
structure Grows (t t' : FileTree) : Prop where
  here : t'.here = t.here
  files : t'.files = t.files
  isFolder : ∀ p, t.isFolder p = true → t'.isFolder p = true

theorem Grows.refl (t : FileTree) : t.Grows t := ⟨rfl, rfl, fun _ h => h⟩

theorem Grows.trans {t'' : FileTree} (h : t.Grows t') (h' : t'.Grows t'') : t.Grows t'' :=
  ⟨h'.here.trans h.here, h'.files.trans h.files, fun p hp => h'.isFolder p (h.isFolder p hp)⟩

theorem grows_cons (t : FileTree) (p : Trail) : t.Grows { t with folders := p :: t.folders } := by
  refine ⟨rfl, rfl, fun q hq => ?_⟩
  simp only [FileTree.isFolder, Bool.or_eq_true, List.contains_cons] at hq ⊢
  exact hq.imp_right .inr

theorem grows_makeFolders (t : FileTree) (p : Trail) (names : List String) :
    t.Grows (t.makeFolders p names).2 := by
  induction names generalizing t p with
  | nil => exact .refl t
  | cons name rest ih =>
    rw [makeFolders]
    split
    · exact ih t p
    · split
      · exact ih t p.dropLast
      · dsimp only
        split
        · exact ih t _
        · split
          · exact .refl t
          · exact (t.grows_cons _).trans (ih _ _)

theorem grows_makeParents (t : FileTree) (text : String) : t.Grows (t.makeParents text).2 := by
  rw [makeParents]
  split
  · exact .refl t
  · exact t.grows_makeFolders _ _

/-- A path that leads somewhere still does when there are more folders. -/
theorem Grows.walk? (h : t.Grows t') (hwalk : t.walk? p names = some trail) :
    t'.walk? p names = some trail := by
  induction names generalizing p with
  | nil => exact hwalk
  | cons name rest ih =>
    obtain ⟨hfolder, hrest⟩ := walk?_cons_eq_some_iff.1 hwalk
    exact walk?_cons_eq_some_iff.2 ⟨h.isFolder p hfolder, ih hrest⟩

theorem Grows.origin (h : t.Grows t') (path : FilePath) : t'.origin path = t.origin path := by
  rw [FileTree.origin, FileTree.origin, h.here]

theorem Grows.locate? (h : t.Grows t') (hlocate : t.locate? text = some trail) :
    t'.locate? text = some trail := by
  obtain ⟨path, hpath, hwalk⟩ := locate?_eq_some_iff.1 hlocate
  exact locate?_eq_some_iff.2 ⟨path, hpath, h.origin path ▸ h.walk? hwalk⟩

/-! ### Writing -/

/-- A file is written where its path leads, and nothing else is changed. -/
theorem exists_of_write? (h : t.write? text content = some t') :
    ∃ trail, t.locate? text = some trail ∧ t.isFolder trail = false ∧
      t' = { t with files := t.files.insert trail content } := by
  simp only [write?, Option.bind_eq_bind, Option.bind_eq_some_iff] at h
  obtain ⟨path, hpath, h⟩ := h
  by_cases hdots : path.names.getLast?.all (["." , ".."].contains ·)
  · rw [if_pos hdots] at h
    cases h
  · rw [if_neg hdots] at h
    obtain ⟨trail, htrail, h⟩ := Option.bind_eq_some_iff.1 h
    by_cases hfolder : t.isFolder trail
    · rw [if_pos hfolder] at h
      cases h
    · rw [if_neg hfolder] at h
      cases h
      exact ⟨trail, locate?_eq_some_iff.2 ⟨path, hpath, htrail⟩, by simpa using hfolder, rfl⟩

/-- A file that was written is there and has its content. -/
theorem read?_of_write? (h : t.write? text content = some t') :
    t'.present text = true ∧ t'.read? text = some content := by
  obtain ⟨trail, hlocate, -, rfl⟩ := exists_of_write? h
  obtain ⟨path, hpath, hwalk⟩ := locate?_eq_some_iff.1 hlocate
  have hfolders : folders { t with files := t.files.insert trail content } = t.folders := rfl
  have hlocate' : locate? { t with files := t.files.insert trail content } text = some trail :=
    locate?_eq_some_iff.2 ⟨path, hpath, (walk?_congr hfolders _ _).trans hwalk⟩
  have hget : (t.files.insert trail content).get? trail = some content := by
    simp [Table.get?_insert]
  have hcontains := Table.contains_iff.2 ⟨content, hget⟩
  simp [present, read?, hlocate', hcontains, hget]

/-! ### Paths that lead nowhere yet -/

/-- A path leads nowhere, but somewhere once the folders on the way to it are made. -/
def Opens (t : FileTree) (text : String) (trail : Trail) : Prop :=
  t.locate? text = none ∧ (t.makeParents text).2.locate? text = some trail

/-- All folders and files are in folders. -/
structure Nested (t : FileTree) : Prop where
  folders : ∀ p, t.isFolder p = true → t.isFolder p.dropLast = true
  files : ∀ p, t.files.contains p = true → t.isFolder p.dropLast = true

/-- What leads to a folder is a folder. -/
theorem Nested.isFolder_of_prefix (h : t.Nested) (hp : p <+: trail)
    (hfolder : t.isFolder trail = true) : t.isFolder p = true := by
  obtain ⟨rest, rfl⟩ := hp
  induction rest using List.reverseRecOn with
  | nil => simpa using hfolder
  | append_singleton rest name ih =>
    refine ih ?_
    have hdrop := h.folders _ hfolder
    rwa [← List.append_assoc, List.dropLast_concat] at hdrop

/-- What leads to a file is a folder. -/
theorem Nested.isFolder_of_file (h : t.Nested) (hfile : t.files.contains trail = true)
    (hp : p <+: trail) (hne : p ≠ trail) : t.isFolder p = true := by
  obtain ⟨rest, rfl⟩ := hp
  have hrest : rest ≠ [] := by
    rintro rfl
    exact hne (List.append_nil p).symm
  refine h.isFolder_of_prefix ?_ (h.files _ hfile)
  rw [List.dropLast_append_of_ne_nil hrest]
  exact List.prefix_append p _

/-- A path without two dots that would lead to a file if there were more folders leads to it
already. -/
theorem Nested.walk?_of_file (h : t.Nested) (hfile : t.files.contains trail = true)
    (hnames : ".." ∉ names) (hplain : t'.isFolder trail = false)
    (hwalk : t'.walk? p names = some trail) : t.walk? p names = some trail := by
  induction names generalizing p with
  | nil => exact hwalk
  | cons name rest ih =>
    obtain ⟨hfolder, hrest⟩ := walk?_cons_eq_some_iff.1 hwalk
    -- The walk goes on from here, so this is a folder, which the file is not.
    have hne : p ≠ trail := by
      rintro rfl
      rw [hplain] at hfolder
      cases hfolder
    have hp := h.isFolder_of_file hfile (prefix_of_walk? hnames hwalk) hne
    exact walk?_cons_eq_some_iff.2 ⟨hp, ih (fun hback => hnames (.tail _ hback)) hrest⟩

/-- So no file is found only once folders are made, unless its path leads back somewhere. -/
theorem Nested.not_opens (h : t.Nested) (hfile : t.files.contains trail = true)
    (hnames : ∀ path ∈ FilePath.ofText? text, ".." ∉ path.names)
    (hplain : (t.makeParents text).2.isFolder trail = false) : ¬ t.Opens text trail := by
  rintro ⟨hnone, hsome⟩
  obtain ⟨path, hpath, hwalk⟩ := locate?_eq_some_iff.1 hsome
  rw [(t.grows_makeParents text).origin] at hwalk
  have hfound := h.walk?_of_file hfile (hnames path hpath) hplain hwalk
  rw [locate?_eq_some_iff.2 ⟨path, hpath, hfound⟩] at hnone
  cases hnone

end Fleet.FileTree
