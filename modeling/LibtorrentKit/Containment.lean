/-
  `safe_relative_path` and the directory it keeps to. The output is the names of the input, one
  behind the other; a path made of names alone cannot lead out of a directory.
-/
import LibtorrentKit.Lib.Lexical
import LibtorrentKit.Payload

namespace LibtorrentKit

/-! ## Names -/

/-- The path begins at the root. -/
def Rooted (path : String) : Prop := path.toList.head? = some '/'

instance (path : String) : Decidable (Rooted path) := inferInstanceAs (Decidable (_ = _))

/-- The names between the separators. -/
def names (path : String) : List String :=
  ((splitSlash path.toList).map String.ofList).filter (· ≠ "")

/-- The lexical normal form of a path from the root, as the names that lead there. -/
def normalForm (path : String) : List String :=
  Lexical.walk (· == ".") (· == "..") [] (names path)

/-- A component that a path is made of. -/
def plain (element : String) : Bool := element ≠ "" ∧ element ≠ "."

theorem splitSlash_eq (cs : List Char) : splitSlash cs = cs.splitOn '/' := by
  induction cs with
  | nil => rfl
  | cons c cs ih =>
    have hne : cs.splitOn '/' ≠ [] := List.splitOn_ne_nil _ _
    rw [List.splitOn_cons_eq_if_modifyHead, splitSlash, ih]
    cases hsplit : cs.splitOn '/' with
    | nil => exact absurd hsplit hne
    | cons part parts => by_cases hc : c = '/' <;> simp [hc]

theorem names_append (xs ys : List Char) :
    names (String.ofList (xs ++ '/' :: ys)) =
      names (String.ofList xs) ++ names (String.ofList ys) := by
  simp only [names, String.toList_ofList, splitSlash_eq, List.splitOn_append_cons_self,
    List.map_append, List.filter_append]

theorem names_joinPath {directory : String} (h : Rooted directory) (path : String) :
    names (joinPath directory path) = names directory ++ names path := by
  obtain ⟨ds, rfl⟩ : ∃ ds, directory = String.ofList ds :=
    ⟨directory.toList, String.ofList_toList.symm⟩
  have hne : ds ≠ [] := by
    rintro rfl
    simp [Rooted] at h
  by_cases hlast : ds.getLast? = some '/'
  · obtain ⟨front, rfl⟩ := List.getLast?_eq_some_iff.mp hlast
    have hjoin : joinPath (String.ofList (front ++ ['/'])) path =
        String.ofList (front ++ '/' :: path.toList) := by
      rw [joinPath, if_pos (.inr (by rw [String.toList_ofList]; exact hlast)),
        ← String.toList_inj]
      simp
    rw [hjoin, names_append, names_append, String.ofList_toList]
    simp [names, splitSlash]
  · have hjoin : joinPath (String.ofList ds) path =
        String.ofList (ds ++ '/' :: path.toList) := by
      have hopen : ¬(String.ofList ds = "" ∨ (String.ofList ds).toList.getLast? = some '/') := by
        simp [hne, hlast]
      rw [joinPath, if_neg hopen, ← String.toList_inj]
      simp
    rw [hjoin, names_append, String.ofList_toList]

/-! ## Elements -/

theorem not_mem_of_mem_splitSlash {cs part : List Char} (h : part ∈ splitSlash cs) :
    '/' ∉ part := by
  induction cs generalizing part with
  | nil => simp_all [splitSlash]
  | cons c cs ih =>
    cases hsplit : splitSlash cs with
    | nil => exact absurd (splitSlash_eq cs ▸ hsplit) (List.splitOn_ne_nil _ _)
    | cons first rest =>
      rw [hsplit] at ih
      by_cases hc : c = '/'
      · simp only [splitSlash, hsplit, if_pos hc] at h
        rcases List.mem_cons.mp h with rfl | h
        · exact List.not_mem_nil
        · exact ih h
      · simp only [splitSlash, hsplit, if_neg hc] at h
        rcases List.mem_cons.mp h with rfl | h
        · rw [List.mem_cons, not_or]
          exact ⟨fun heq => hc heq.symm, ih List.mem_cons_self⟩
        · exact ih (List.mem_cons_of_mem _ h)

theorem not_mem_of_mem_names {path name : String} (h : name ∈ names path) :
    '/' ∉ name.toList ∧ name ≠ "" := by
  obtain ⟨hmem, hne⟩ := List.mem_filter.mp h
  obtain ⟨part, hpart, rfl⟩ := List.mem_map.mp hmem
  rw [String.toList_ofList]
  exact ⟨not_mem_of_mem_splitSlash hpart, by simpa using hne⟩

theorem pathElements_eq (path : String) :
    pathElements path =
      if ((splitSlash path.toList).map String.ofList).getLast? = some "" ∧ names path ≠ [] then
        names path ++ [""]
      else names path := rfl

theorem pathElements_filter (path : String) :
    (pathElements path).filter plain = (names path).filter plain := by
  have hend : [""].filter plain = [] := by decide
  rw [pathElements_eq]
  split
  · rw [List.filter_append, hend, List.append_nil]
  · rfl

/-- `clean /= element`, for an element without a root. -/
def glue (clean element : String) : String :=
  if clean = "" then element else clean ++ "/" ++ element

/-- The loop of `safe_relative_path` keeps the plain elements. -/
theorem cleanPath_eq (clean : String) (elements : List String) :
    cleanPath clean elements =
      if ".." ∈ elements then none else some ((elements.filter plain).foldl glue clean) := by
  induction elements generalizing clean with
  | nil => simp [cleanPath]
  | cons element rest ih =>
    rw [cleanPath]
    by_cases hup : element = ".."
    · simp [hup]
    · by_cases hskip : element = "." ∨ element = ""
      · have hplain : plain element = false := by
          rcases hskip with rfl | rfl <;> decide
        rw [if_neg hup, if_pos hskip, ih]
        simp [hplain, Ne.symm hup]
      · have hplain : plain element = true := by simpa [plain, not_or, and_comm] using hskip
        rw [if_neg hup, if_neg hskip, ih]
        simp [hplain, Ne.symm hup, glue]

theorem glue_toList {clean element : String} (h : clean ≠ "") :
    (glue clean element).toList = clean.toList ++ '/' :: element.toList := by
  rw [glue, if_neg h]
  simp

theorem foldl_glue_toList {clean : String} (h : clean ≠ "") (elements : List String) :
    (elements.foldl glue clean).toList =
      ['/'].intercalate (clean.toList :: elements.map String.toList) := by
  induction elements generalizing clean with
  | nil => simp
  | cons element rest ih =>
    have hne : glue clean element ≠ "" := by
      intro heq
      have hlist := glue_toList h ▸ congrArg String.toList heq
      simp at hlist
    rw [List.foldl_cons, ih hne, glue_toList h, List.map_cons, List.intercalate_cons_cons]
    cases rest with
    | nil => simp
    | cons next rest => simp [List.intercalate_cons_cons]

/-- What the loop builds has the elements for its names. -/
theorem splitSlash_foldl_glue {elements : List String} (hne : elements ≠ [])
    (hname : ∀ e ∈ elements, '/' ∉ e.toList ∧ e ≠ "") :
    splitSlash (elements.foldl glue "").toList = elements.map String.toList := by
  cases elements with
  | nil => exact absurd rfl hne
  | cons first rest =>
    have hfirst := (hname first List.mem_cons_self).2
    have hparts : ∀ part ∈ (first :: rest).map String.toList, '/' ∉ part := by
      intro part hpart
      obtain ⟨e, he, rfl⟩ := List.mem_map.mp hpart
      exact (hname e he).1
    have hlist : ((first :: rest).foldl glue "").toList =
        ['/'].intercalate ((first :: rest).map String.toList) :=
      foldl_glue_toList hfirst rest
    rw [hlist, splitSlash_eq, List.splitOn_intercalate _ hparts (by simp)]

theorem pathElements_foldl_glue {elements : List String} (hne : elements ≠ [])
    (hname : ∀ e ∈ elements, '/' ∉ e.toList ∧ e ≠ "") :
    pathElements (elements.foldl glue "") = elements ∧
      names (elements.foldl glue "") = elements := by
  have hmap : (splitSlash (elements.foldl glue "").toList).map String.ofList = elements := by
    rw [splitSlash_foldl_glue hne hname, List.map_map]
    simp [Function.comp_def]
  have hnames : names (elements.foldl glue "") = elements := by
    rw [names, hmap]
    exact List.filter_eq_self.mpr fun e he => by simpa using (hname e he).2
  have hlast : ¬elements.getLast? = some "" := fun h =>
    (hname "" (List.mem_of_getLast? h)).2 rfl
  rw [pathElements_eq, hmap, hnames]
  exact ⟨if_neg fun h => hlast h.1, rfl⟩

/-! ## The output -/

/-- The elements that `safe_relative_path` keeps. -/
def kept (path : String) : List String := (pathElements path).filter plain

theorem kept_name {path element : String} (h : element ∈ kept path) :
    '/' ∉ element.toList ∧ element ≠ "" := by
  rw [kept, pathElements_filter] at h
  exact not_mem_of_mem_names (List.mem_of_mem_filter h)

theorem kept_plain {path element : String} (h : element ∈ kept path) : element ≠ "." := by
  have hplain := (List.mem_filter.mp h).2
  simp only [plain, decide_eq_true_eq] at hplain
  exact hplain.2

theorem kept_empty : kept "" = [] := by decide

theorem foldl_glue_kept {path : String} (h : kept path ≠ []) :
    pathElements ((kept path).foldl glue "") = kept path ∧
      names ((kept path).foldl glue "") = kept path :=
  pathElements_foldl_glue h fun _ he => kept_name he

theorem foldl_glue_kept_ne {path : String} (h : kept path ≠ []) :
    (kept path).foldl glue "" ≠ "" := by
  intro hempty
  have hnames := (foldl_glue_kept h).2
  rw [hempty] at hnames
  exact h hnames.symm

/-- The tests of `safe_relative_path`, and the output of its loop. -/
theorem safeRelativePath_some_iff {file : FileEntry} {output : String} :
    safeRelativePath file = some output ↔
      file.absolutePath = false ∧ ¬Rooted file.path ∧ ".." ∉ pathElements file.path ∧
        kept file.path ≠ [] ∧ ((kept file.path).foldl glue "").utf8ByteSize ≤ 4096 ∧
          output = (kept file.path).foldl glue "" := by
  rw [safeRelativePath, cleanPath_eq, ← kept]
  constructor
  · intro h
    split at h
    · cases h
    · rename_i habsolute
      split at h
      · cases h
      · rename_i hpath
        rw [not_or] at hpath
        by_cases hup : ".." ∈ pathElements file.path
        · rw [if_pos hup] at h
          cases h
        · rw [if_neg hup] at h
          simp only [Option.ite_none_right_eq_some, Option.some.injEq] at h
          obtain ⟨⟨hout, hsize⟩, rfl⟩ := h
          refine ⟨by simpa using habsolute, hpath.2, hup, ?_, hsize, rfl⟩
          intro hkept
          exact hout (by rw [hkept, List.foldl_nil])
  · rintro ⟨habsolute, hroot, hup, hkept, hsize, rfl⟩
    have hpath : ¬(file.path = "" ∨ file.path.toList.head? = some '/') := by
      rintro (hempty | h)
      · exact hkept (hempty ▸ kept_empty)
      · exact hroot h
    rw [habsolute, if_neg Bool.false_ne_true, if_neg hpath, if_neg hup]
    exact if_pos ⟨foldl_glue_kept_ne hkept, hsize⟩

/-- The output keeps to the directory that it is put below. -/
structure Contained (input output : String) : Prop where
  nonempty : output ≠ ""
  bytes : output.utf8ByteSize ≤ 4096
  relative : ¬Rooted output
  plain : ∀ element ∈ pathElements output, element ≠ "" ∧ element ≠ "." ∧ element ≠ ".."
  elements : pathElements output = (pathElements input).filter fun e => e ≠ "" ∧ e ≠ "."
  under : ∀ directory, Rooted directory →
    ∃ below, below ≠ [] ∧ normalForm (joinPath directory output) = normalForm directory ++ below

theorem rooted_splitSlash {path : String} (h : Rooted path) :
    [] ∈ splitSlash path.toList := by
  obtain ⟨rest, hrest⟩ := List.head?_eq_some_iff.mp h
  rw [hrest, splitSlash_eq, List.splitOn_cons_eq_if_modifyHead]
  simp

theorem contained_foldl_glue {path : String} (hkept : kept path ≠ [])
    (hup : ".." ∉ pathElements path)
    (hsize : ((kept path).foldl glue "").utf8ByteSize ≤ 4096) :
    Contained path ((kept path).foldl glue "") := by
  obtain ⟨helements, hnames⟩ := foldl_glue_kept hkept
  have hdown : ∀ e ∈ kept path, e ≠ ".." := fun e he heq =>
    hup (heq ▸ List.mem_of_mem_filter he)
  refine ⟨foldl_glue_kept_ne hkept, hsize, ?_, ?_, helements, ?_⟩
  · intro hroot
    have hmem := rooted_splitSlash hroot
    rw [splitSlash_foldl_glue hkept fun _ he => kept_name he] at hmem
    obtain ⟨e, he, hnil⟩ := List.mem_map.mp hmem
    exact (kept_name he).2 (String.toList_eq_nil_iff.mp hnil)
  · intro e he
    rw [helements] at he
    exact ⟨(kept_name he).2, kept_plain he, hdown e he⟩
  · intro directory hdirectory
    refine ⟨kept path, hkept, ?_⟩
    have hwalk : (kept path).filter (fun e => !(e == ".")) = kept path :=
      List.filter_eq_self.mpr fun e he => by simpa using kept_plain he
    rw [normalForm, names_joinPath hdirectory, hnames,
      Lexical.walk_under fun e he => by simpa using hdown e he, hwalk, ← normalForm]

/-- What `safe_relative_path` lets through lies below any directory that it is put into; a path
with a root, with a `..` or with no name left is turned away. -/
theorem safeRelativePath_contained (file : FileEntry) :
    (∀ output, safeRelativePath file = some output → Contained file.path output) ∧
    (file.absolutePath = true ∨ Rooted file.path ∨ ".." ∈ pathElements file.path ∨
        (pathElements file.path).filter (fun e => e ≠ "" ∧ e ≠ ".") = [] →
      safeRelativePath file = none) := by
  constructor
  · intro output h
    obtain ⟨-, -, hup, hkept, hsize, rfl⟩ := safeRelativePath_some_iff.mp h
    exact contained_foldl_glue hkept hup hsize
  · intro h
    rw [Option.eq_none_iff_forall_ne_some]
    intro output hsome
    obtain ⟨habsolute, hroot, hup, hkept, -, -⟩ := safeRelativePath_some_iff.mp hsome
    rcases h with h | h | h | h
    · exact Bool.noConfusion (habsolute.symm.trans h)
    · exact hroot h
    · exact hup h
    · exact hkept h

theorem scatteredPath_contained :
    safeRelativePath ⟨"./a//b/./c/", false, 1, 0, false⟩ = some "a/b/c" ∧
      Contained "./a//b/./c/" "a/b/c" ∧
      safeRelativePath ⟨"a/../../b", false, 1, 0, false⟩ = none := by
  have hsome : safeRelativePath ⟨"./a//b/./c/", false, 1, 0, false⟩ = some "a/b/c" := by
    decide +kernel
  exact ⟨hsome, (safeRelativePath_contained _).1 _ hsome,
    (safeRelativePath_contained _).2 (by decide +kernel)⟩

end LibtorrentKit
