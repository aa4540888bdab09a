/-
  The file indexes of `add` and `selectFiles` on their way to the native layer.

  A method checks its arguments, and hands a closure to `perform` that converts the primary file
  with `Int32(…)`, a conversion that traps when the value does not fit. `add` compares the
  primary file with the selection only when there is one: without one it may be anything.
-/
import LibtorrentKit.Lib.Checked
import LibtorrentKit.Session.State
import LibtorrentKit.Swift.Diagnostics
import Mathlib.Data.Finset.Sort
import Mathlib.Data.Int.ConditionallyCompleteOrder

namespace LibtorrentKit

open Checked

namespace Swift

/-! ## The request -/

/-- What the methods read of a `URL`. -/
structure Url where
  scheme : Option String
  /-- `URLComponents(url:resolvingAgainstBaseURL:)?.queryItems`, with names and values. -/
  queryItems : Option (List (String × Option String))
  absoluteString : String
  isFileUrl : Bool
  path : String
  deriving DecidableEq, Repr

/-- `TorrentSource`. -/
inductive Source where
  | magnet (url : Url)
  | torrentData (data : Bytes)
  deriving DecidableEq, Repr

inductive CompletionPolicy where
  | stopWithoutDeletingFiles
  | seed
  deriving DecidableEq, Repr

structure RateLimits where
  downloadBytesPerSecond : Int := 0
  uploadBytesPerSecond : Int := 0
  deriving DecidableEq, Repr

/-- `TorrentAddRequest`; `id` is the `uuidString`. -/
structure TorrentAddRequest where
  id : String
  source : Source
  resumeData : Option Bytes := none
  downloadDirectory : Url
  selectedFileIndexes : Option (Finset Int) := none
  primaryFileIndex : Option Int := none
  beginsPaused : Bool := true
  rateLimits : RateLimits := {}
  completionPolicy : CompletionPolicy := .stopWithoutDeletingFiles
  deriving DecidableEq

/-- `init(…)` of an error of the Swift layer, with its default category. -/
def raised (platform : Foundation) (operation : Operation) (code : ErrorCode)
    (description : String) : TorrentError :=
  .make platform operation code "LibtorrentKit" description

/-- A magnet link with an exact topic. -/
def Url.isMagnet (url : Url) : Bool :=
  url.scheme.map String.toLower == some "magnet" &&
    (url.queryItems.getD []).any fun item => item.1.toLower == "xt" && item.2.getD "" != ""

/-- The guards of `validated`. -/
def Source.isValid : Source → Bool
  | .magnet url => url.isMagnet
  | .torrentData data => !data.isEmpty && decide (data.length ≤ 64 * 1024 * 1024)

/-- `validated`; the source itself when it is valid. -/
def Source.validated (platform : Foundation) (source : Source) : Except TorrentError Source :=
  if source.isValid then .ok source
  else
    match source with
    | .magnet _ => .error (raised platform .add .invalidSource "The magnet source is invalid.")
    | .torrentData _ =>
        .error (raised platform .add .invalidSource
          "The torrent data is empty or exceeds the supported size.")

/-- `withSourceBytes`: the kind and the bytes. -/
def Source.bytes : Source → Int × Bytes
  | .magnet url => (0, url.absoluteString.toUTF8.toList)
  | .torrentData data => (1, data)

/-! ## Conversions -/

/-- `Int32(clamping:)`. -/
def clamping (value : Int) : Int := max (-2147483648) (min value 2147483647)

def ensureRunning (platform : Foundation) (isShutDown : Bool) (operation : Operation) :
    Except TorrentError Unit :=
  if isShutDown then
    .error (raised platform operation .sessionShutDown "The torrent session has shut down.")
  else .ok ()

/-- One turn of `nativeIndexes`, with `Int32(exactly:)`. -/
def nativeIndex (platform : Foundation) (operation : Operation) (index : Int) :
    Except TorrentError Int :=
  if 0 ≤ index ∧ Fits32 index then .ok index
  else .error (raised platform operation .invalidFileIndex
    "A file index is outside the supported range.")

def nativeIndexes (platform : Foundation) (operation : Operation) (indexes : Finset Int) :
    Except TorrentError (List Int) :=
  indexes.sort.mapM (nativeIndex platform operation)

def checkDirectory (platform : Foundation) (directory : Url) : Except TorrentError Unit :=
  if directory.isFileUrl then .ok ()
  else .error (raised platform .add .invalidArgument
    "The download directory must be a local file URL.")

/-- The primary file is one of the selected files, when there is a selection. -/
def checkPrimary (platform : Foundation) (operation : Operation) (primary : Option Int)
    (selection : Option (Finset Int)) : Except TorrentError Unit :=
  match primary, selection with
  | some primary, some selection =>
      if primary ∈ selection then .ok ()
      else .error (raised platform operation .invalidFileIndex "The primary file must be selected.")
  | _, _ => .ok ()

/-! ## The methods -/

/-- `add` up to `perform`, and the closure that it performs: what reaches the native layer, or
`none` when a conversion traps. -/
def add (platform : Foundation) (isShutDown : Bool) (request : TorrentAddRequest) :
    Except TorrentError (Option Api) := do
  ensureRunning platform isShutDown .add
  let source ← request.source.validated platform
  checkDirectory platform request.downloadDirectory
  let selected ← nativeIndexes platform .add (request.selectedFileIndexes.getD ∅)
  checkPrimary platform .add request.primaryFileIndex request.selectedFileIndexes
  pure ((exact32 (request.primaryFileIndex.getD (-1))).map fun primaryFile => .add {
    identifier := request.id
    sourceKind := source.bytes.1
    source := source.bytes.2
    resumeData := request.resumeData.getD []
    downloadDirectory := request.downloadDirectory.path
    selectedFiles := selected
    hasFileSelection := request.selectedFileIndexes.isSome
    primaryFile
    beginsPaused := request.beginsPaused
    downloadLimit := clamping request.rateLimits.downloadBytesPerSecond
    uploadLimit := clamping request.rateLimits.uploadBytesPerSecond
    completionPolicy := if request.completionPolicy = .seed then 1 else 0 })

/-- `selectFiles`, likewise. -/
def selectFiles (platform : Foundation) (isShutDown : Bool) (id : String)
    (selectedFileIndexes : Finset Int) (primaryFileIndex : Option Int) :
    Except TorrentError (Option Api) := do
  let indexes ← nativeIndexes platform .selection selectedFileIndexes
  checkPrimary platform .selection primaryFileIndex (some selectedFileIndexes)
  ensureRunning platform isShutDown .selection
  pure ((exact32 (primaryFileIndex.getD (-1))).map fun primary => .selectFiles id indexes primary)

/-- What the executor does with a closure: it runs it, or it finds the session gone, or the task
was cancelled before. -/
inductive Verdict where
  | runs
  | shutDown
  | cancelled
  deriving DecidableEq, Repr

/-- How the call of a method goes on from its checks. -/
inductive Ending where
  | thrown (error : TorrentError)
  | cancelled
  | trapped
  | reached (api : Api)
  deriving DecidableEq

/-- `perform`. -/
def perform (platform : Foundation) (verdict : Verdict) (closure : Option Api) : Ending :=
  match verdict with
  | .runs => closure.elim .trapped .reached
  | .shutDown =>
      .thrown (raised platform .shutdown .sessionShutDown "The torrent session has shut down.")
  | .cancelled => .cancelled

def ending (platform : Foundation) (verdict : Verdict)
    (method : Except TorrentError (Option Api)) : Ending :=
  match method with
  | .error error => .thrown error
  | .ok closure => perform platform verdict closure

/-! ## The checks -/

theorem bind_eq_ok {ε α β : Type} {x : Except ε α} {f : α → Except ε β} {b : β} :
    x >>= f = .ok b ↔ ∃ a, x = .ok a ∧ f a = .ok b := by
  cases x with
  | error e =>
    constructor
    · intro h
      cases h
    · rintro ⟨a, h, -⟩
      cases h
  | ok a =>
    constructor
    · intro h
      exact ⟨a, rfl, h⟩
    · rintro ⟨a', h, hf⟩
      cases h
      exact hf

variable {platform : Foundation} {operation : Operation}

theorem ensureRunning_ok {isShutDown : Bool} {u : Unit} :
    ensureRunning platform isShutDown operation = .ok u ↔ isShutDown = false := by
  cases isShutDown <;> simp [ensureRunning]

theorem validated_ok {source source' : Source} :
    source.validated platform = .ok source' ↔ source.isValid = true ∧ source' = source := by
  unfold Source.validated
  split
  · next h => simp [h, eq_comm]
  · next h => cases source <;> simp [h]

theorem checkDirectory_ok {directory : Url} {u : Unit} :
    checkDirectory platform directory = .ok u ↔ directory.isFileUrl = true := by
  cases h : directory.isFileUrl <;> simp [checkDirectory, h]

theorem mapM_nativeIndex_ok {indexes values : List Int} :
    indexes.mapM (nativeIndex platform operation) = .ok values ↔
      values = indexes ∧ ∀ index ∈ indexes, 0 ≤ index ∧ Fits32 index := by
  induction indexes generalizing values with
  | nil => simp [pure, Except.pure, eq_comm]
  | cons index rest ih =>
    rw [List.mapM_cons]
    simp only [bind_eq_ok, ih, nativeIndex]
    constructor
    · rintro ⟨value, hvalue, tail, ⟨rfl, hrest⟩, hpure⟩
      cases hpure
      split at hvalue
      · next hfits =>
          cases hvalue
          exact ⟨rfl, List.forall_mem_cons.mpr ⟨hfits, hrest⟩⟩
      · cases hvalue
    · rintro ⟨rfl, hall⟩
      obtain ⟨hfits, hrest⟩ := List.forall_mem_cons.mp hall
      exact ⟨index, if_pos hfits, rest, ⟨rfl, hrest⟩, rfl⟩

theorem nativeIndexes_ok {indexes : Finset Int} {values : List Int} :
    nativeIndexes platform operation indexes = .ok values ↔
      values = indexes.sort ∧ ∀ index ∈ indexes, 0 ≤ index ∧ Fits32 index := by
  rw [nativeIndexes, mapM_nativeIndex_ok]
  simp only [Finset.mem_sort]

theorem checkPrimary_ok {primary : Option Int} {selection : Option (Finset Int)} {u : Unit} :
    checkPrimary platform operation primary selection = .ok u ↔
      ∀ p s, primary = some p → selection = some s → p ∈ s := by
  cases primary with
  | none => simp [checkPrimary]
  | some p =>
    cases selection with
    | none => simp [checkPrimary]
    | some s =>
      by_cases h : p ∈ s <;> simp [checkPrimary, h]

theorem add_ok {isShutDown : Bool} {request : TorrentAddRequest} {closure : Option Api}
    (h : add platform isShutDown request = .ok closure) :
    (isShutDown = false ∧ request.source.isValid = true ∧
        request.downloadDirectory.isFileUrl = true) ∧
      (∀ index ∈ request.selectedFileIndexes.getD ∅, 0 ≤ index ∧ Fits32 index) ∧
      (∀ p s, request.primaryFileIndex = some p → request.selectedFileIndexes = some s → p ∈ s) ∧
      ∃ args : Int → AddRequest, closure =
          (exact32 (request.primaryFileIndex.getD (-1))).map (fun primary => .add (args primary)) ∧
        ∀ primary, (args primary).selectedFiles = (request.selectedFileIndexes.getD ∅).sort ∧
          (args primary).hasFileSelection = request.selectedFileIndexes.isSome ∧
          (args primary).primaryFile = primary := by
  simp only [add, bind_eq_ok, ensureRunning_ok, validated_ok, checkDirectory_ok, nativeIndexes_ok,
    checkPrimary_ok] at h
  obtain ⟨_, hrunning, source, ⟨hsource, -⟩, _, hdirectory, selected, ⟨rfl, hfits⟩, _, hselected,
    hclosure⟩ := h
  cases hclosure
  exact ⟨⟨hrunning, hsource, hdirectory⟩, hfits, hselected, _, rfl, fun _ => ⟨rfl, rfl, rfl⟩⟩

/-- Without a selection nothing is asked of the primary file. -/
theorem add_unselected {request : TorrentAddRequest} (hsource : request.source.isValid = true)
    (hdirectory : request.downloadDirectory.isFileUrl = true)
    (hselection : request.selectedFileIndexes = none) :
    ∃ closure, add platform false request = .ok closure := by
  simp only [add, bind_eq_ok, ensureRunning_ok, validated_ok, checkDirectory_ok, nativeIndexes_ok,
    checkPrimary_ok]
  refine ⟨_, (), trivial, _, ⟨hsource, rfl⟩, (), hdirectory, _, ⟨rfl, ?_⟩, (), ?_, rfl⟩
  · simp [hselection]
  · simp [hselection]

theorem selectFiles_ok {isShutDown : Bool} {id : String} {selection : Finset Int}
    {primary : Option Int} {closure : Option Api}
    (h : selectFiles platform isShutDown id selection primary = .ok closure) :
    (∀ index ∈ selection, 0 ≤ index ∧ Fits32 index) ∧ (∀ p, primary = some p → p ∈ selection) ∧
      closure = (exact32 (primary.getD (-1))).map fun p => .selectFiles id selection.sort p := by
  simp only [selectFiles, bind_eq_ok, ensureRunning_ok, nativeIndexes_ok, checkPrimary_ok] at h
  obtain ⟨selected, ⟨rfl, hfits⟩, _, hselected, _, -, hclosure⟩ := h
  cases hclosure
  exact ⟨hfits, fun p hp => hselected p _ hp rfl, rfl⟩

/-! ## Conversions of whole calls -/

/-- The indexes in the native call are those of the Swift call, and fit. -/
structure Converted (selection : Option (Finset Int)) (primary : Option Int)
    (indexes : List Int) (nativePrimary : Int) : Prop where
  indexes_eq : indexes = (selection.getD ∅).sort
  indexes_fit : ∀ index ∈ indexes, 0 ≤ index ∧ Fits32 index
  primary_eq : nativePrimary = primary.getD (-1)
  primary_fits : Fits32 nativePrimary
  primary_none : nativePrimary = -1 ↔ primary = none
  primary_selected : ∀ p s, primary = some p → selection = some s → p ∈ s

/-- The call ends with an error, or reaches the native layer with what it was given. -/
def Ending.Safe (selection : Option (Finset Int)) (primary : Option Int) : Ending → Prop
  | .thrown _ => True
  | .cancelled => True
  | .trapped => False
  | .reached (.add r) =>
      Converted selection primary r.selectedFiles r.primaryFile ∧
        r.hasFileSelection = selection.isSome
  | .reached (.selectFiles _ indexes nativePrimary) =>
      Converted selection primary indexes nativePrimary
  | .reached _ => False

/-- A primary file that the native layer can be given, and that does not stand for none. -/
def Expressible (primary : Option Int) : Prop :=
  ∀ p, primary = some p → Fits32 p ∧ p ≠ -1

theorem converted_of {selection : Option (Finset Int)} {primary : Option Int}
    (hfits : ∀ index ∈ selection.getD ∅, 0 ≤ index ∧ Fits32 index)
    (hselected : ∀ p s, primary = some p → selection = some s → p ∈ s)
    (hprimary : Expressible primary) :
    Converted selection primary (selection.getD ∅).sort (primary.getD (-1)) := by
  refine ⟨rfl, fun index hindex => hfits index ((Finset.mem_sort _).mp hindex), rfl, ?_, ?_,
    hselected⟩
  · cases primary with
    | none => decide
    | some p => exact (hprimary p rfl).1
  · cases primary with
    | none => simp
    | some p => simpa using (hprimary p rfl).2

/-- A member of a checked selection is expressible. -/
theorem expressible_of_selected {selection : Finset Int} {primary : Option Int}
    (hfits : ∀ index ∈ selection, 0 ≤ index ∧ Fits32 index)
    (hselected : ∀ p, primary = some p → p ∈ selection) : Expressible primary := by
  intro p hp
  obtain ⟨hnonneg, hfit⟩ := hfits p (hselected p hp)
  exact ⟨hfit, by omega⟩

/-- `add` does not come to the conversion of the primary file, or there is a selection for it to
be in, or it can be converted. -/
def Harmless (isShutDown : Bool) (verdict : Verdict) (request : TorrentAddRequest) : Prop :=
  isShutDown = true ∨ request.source.isValid = false ∨
    request.downloadDirectory.isFileUrl = false ∨ verdict ≠ .runs ∨
    request.selectedFileIndexes.isSome = true ∨ Expressible request.primaryFileIndex

theorem add_expressible {isShutDown : Bool} {request : TorrentAddRequest} {closure : Option Api}
    (h : add platform isShutDown request = .ok closure)
    (hharmless : Harmless isShutDown .runs request) : Expressible request.primaryFileIndex := by
  obtain ⟨⟨hrunning, hsource, hdirectory⟩, hfits, hselected, -⟩ := add_ok h
  rcases hharmless with h | h | h | h | h | h
  · rw [hrunning] at h
    cases h
  · rw [hsource] at h
    cases h
  · rw [hdirectory] at h
    cases h
  · exact absurd rfl h
  · obtain ⟨selection, hselection⟩ := Option.isSome_iff_exists.mp h
    rw [hselection] at hfits
    exact expressible_of_selected hfits fun p hp => hselected p selection hp hselection
  · exact h

theorem add_safe {verdict : Verdict} {isShutDown : Bool} {request : TorrentAddRequest}
    (hharmless : Harmless isShutDown verdict request) :
    (ending platform verdict (add platform isShutDown request)).Safe
      request.selectedFileIndexes request.primaryFileIndex := by
  cases hadd : add platform isShutDown request with
  | error e => exact trivial
  | ok closure =>
    cases verdict with
    | shutDown => exact trivial
    | cancelled => exact trivial
    | runs =>
      have hprimary := add_expressible hadd hharmless
      obtain ⟨-, hfits, hselected, args, rfl, hargs⟩ := add_ok hadd
      have hconverted := converted_of hfits hselected hprimary
      have hfit : exact32 (request.primaryFileIndex.getD (-1)) =
          some (request.primaryFileIndex.getD (-1)) := exact32_eq hconverted.primary_fits
      obtain ⟨hindexes, hselection, hvalue⟩ := hargs (request.primaryFileIndex.getD (-1))
      rw [hfit]
      refine ⟨?_, hselection⟩
      rw [hindexes, hvalue]
      exact hconverted

/-- Without a selection, a primary file out of range traps. -/
theorem add_traps {request : TorrentAddRequest} {p : Int}
    (hsource : request.source.isValid = true)
    (hdirectory : request.downloadDirectory.isFileUrl = true)
    (hselection : request.selectedFileIndexes = none) (hp : request.primaryFileIndex = some p)
    (hfits : ¬Fits32 p) :
    ending platform .runs (add platform false request) = .trapped := by
  obtain ⟨closure, hadd⟩ := @add_unselected platform _ hsource hdirectory hselection
  obtain ⟨-, -, -, args, rfl, -⟩ := add_ok hadd
  have htrap : exact32 (request.primaryFileIndex.getD (-1)) = none := by
    rw [hp]
    exact if_neg hfits
  rw [hadd, htrap]
  rfl

/-- Without a selection, the primary file -1 is taken for none. -/
theorem add_mistakes {request : TorrentAddRequest} (hsource : request.source.isValid = true)
    (hdirectory : request.downloadDirectory.isFileUrl = true)
    (hselection : request.selectedFileIndexes = none)
    (hp : request.primaryFileIndex = some (-1)) :
    ¬(ending platform .runs (add platform false request)).Safe none (some (-1)) := by
  obtain ⟨closure, hadd⟩ := @add_unselected platform _ hsource hdirectory hselection
  obtain ⟨-, -, -, args, rfl, hargs⟩ := add_ok hadd
  have hfit : exact32 (request.primaryFileIndex.getD (-1)) = some (-1) := by
    rw [hp]
    exact exact32_eq (by decide)
  intro hsafe
  rw [hadd, hfit] at hsafe
  have hnone := hsafe.1.primary_none.mp (hargs (-1)).2.2
  cases hnone

theorem add_unsafe {request : TorrentAddRequest} (hsource : request.source.isValid = true)
    (hdirectory : request.downloadDirectory.isFileUrl = true)
    (hselection : request.selectedFileIndexes = none)
    (hprimary : ¬Expressible request.primaryFileIndex) :
    ¬(ending platform .runs (add platform false request)).Safe
      request.selectedFileIndexes request.primaryFileIndex := by
  simp only [Expressible, not_forall] at hprimary
  obtain ⟨p, hp, hbad⟩ := hprimary
  by_cases hfits : Fits32 p
  · have hminus : p = -1 := by
      by_contra hne
      exact hbad ⟨hfits, hne⟩
    subst hminus
    rw [hselection, hp]
    exact add_mistakes hsource hdirectory hselection hp
  · rw [add_traps hsource hdirectory hselection hp hfits]
    exact id

/-- `selectFiles` never traps; `add` traps, or passes off a primary file as none, exactly when it
gets past its other checks with a primary file that no selection vouches for and that cannot be
expressed. -/
theorem indexes_converted (platform : Foundation) (verdict : Verdict) (isShutDown : Bool) :
    (∀ request,
      (ending platform verdict (add platform isShutDown request)).Safe
          request.selectedFileIndexes request.primaryFileIndex ↔
        Harmless isShutDown verdict request) ∧
    ∀ id selection primary,
      (ending platform verdict (selectFiles platform isShutDown id selection primary)).Safe
        (some selection) primary := by
  constructor
  · intro request
    refine ⟨fun hsafe => ?_, add_safe⟩
    by_contra hharmful
    simp only [Harmless, not_or, Bool.not_eq_true, Bool.not_eq_false, ne_eq, not_not,
      Option.isSome_eq_false_iff, Option.isNone_iff_eq_none] at hharmful
    obtain ⟨rfl, hsource, hdirectory, rfl, hselection, hprimary⟩ := hharmful
    exact add_unsafe hsource hdirectory hselection hprimary hsafe
  · intro id selection primary
    cases hselect : selectFiles platform isShutDown id selection primary with
    | error e => exact trivial
    | ok closure =>
      cases verdict with
      | shutDown => exact trivial
      | cancelled => exact trivial
      | runs =>
        obtain ⟨hfits, hselected, rfl⟩ := selectFiles_ok hselect
        have hconverted := @converted_of (some selection) primary hfits
          (fun p s hp hs => Option.some.inj hs ▸ hselected p hp)
          (expressible_of_selected hfits hselected)
        rw [exact32_eq hconverted.primary_fits]
        exact hconverted

/-- A request without a selection. -/
def strayRequest (primary : Int) : TorrentAddRequest where
  id := "00000000-0000-0000-0000-000000000001"
  source := .torrentData [100, 101]
  downloadDirectory := ⟨some "file", none, "file:///downloads", true, "/downloads"⟩
  primaryFileIndex := some primary

/-- A primary file out of range traps, and -1 is taken for none. -/
theorem strayPrimary_traps :
    ending TorrentError.codePoints .runs
        (add TorrentError.codePoints false (strayRequest 2147483648)) = .trapped ∧
      ¬(ending TorrentError.codePoints .runs
        (add TorrentError.codePoints false (strayRequest (-1)))).Safe none (some (-1)) :=
  ⟨add_traps rfl rfl rfl rfl (by decide), add_mistakes rfl rfl rfl rfl⟩

end Swift

end LibtorrentKit
