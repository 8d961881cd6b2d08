import ImageGateway.Proofs.Archive.Places
import ImageGateway.Proofs.Gateway.Relaying
import ImageGateway.Proofs.Text.Scalars

/-!
# References to images

A record refers to its image by the name of the file and a token that changes nothing. Behind the
path of the results and the encoded name of the project, this is a target that the gateway answers
with the file: what it decodes are the names on the way to the image (`names?_imageRoute`), so that
every image is found under its references, and no two images under the same path
(`image_of_reference`).
-/

set_option autoImplicit false

namespace ImageGateway

open Storage Storage.FileTree
open Storage.FilePath (IsComponent)
open Http (Request Response)

/-! ## Encoded names -/

namespace Bytes

variable {bs : Bytes}

/-- The text whose characters are the bytes is written with these bytes, if all are ASCII. -/
theorem ofChars_map_ofNat (h : ∀ b ∈ bs, b < 128) :
    ofChars (bs.map fun b => Char.ofNat b.toNat) = bs := by
  induction bs with
  | nil => rfl
  | cons b bs ih =>
    have ascii := h b List.mem_cons_self
    have one : String.utf8EncodeChar (Char.ofNat b.toNat) = [b] :=
      Text.Utf8.utf8EncodeChar_one (UInt8.lt_iff_toNat_lt.mp ascii)
    rw [List.map_cons, ofChars_cons, one, ih fun b' hb' => h b' (List.mem_cons_of_mem b hb')]
    rfl

/-- An ASCII character is among the bytes of a text only if it is among its characters. -/
theorem not_mem_ofChars {c : Char} {b : UInt8} (hb : b.toNat = c.toNat) (hc : c.toNat < 128)
    {cs : List Char} (h : c ∉ cs) : b ∉ ofChars cs := by
  intro found
  obtain ⟨d, hd, there⟩ := List.mem_flatMap.mp found
  obtain ⟨same, -⟩ | ⟨high, -⟩ := Text.Utf8.toNat_of_mem_utf8EncodeChar there
  · exact h (Char.toNat_inj.mp (hb.symm.trans same) ▸ hd)
  · have small : b.toNat < 128 := hb ▸ hc
    exact absurd small (Nat.not_lt.mpr high)

end Bytes

namespace Http.Percent

variable {isPlain : UInt8 → Bool} {bs : Bytes} {b : UInt8}

/-- Only visible ASCII characters are written as they are, and none that means something in a
target: the percent sign, the question mark and the number sign are encoded. -/
structure SuitsTargets (isPlain : UInt8 → Bool) : Prop where
  visible : ∀ b, isPlain b = true → 32 < b ∧ b < 127
  percent : isPlain 37 = false
  query : isPlain 63 = false
  fragment : isPlain 35 = false

/-- The bytes of an encoded byte are ASCII characters that mean nothing in a path. -/
theorem of_mem_escape (b : UInt8) : ∀ e ∈ escape b, e < 128 ∧ e ≠ 63 ∧ e ≠ 35 ∧ e ≠ 47 := by
  have all : ∀ n : Fin 256, (escape (UInt8.ofNat n)).all
      (fun e => decide (e < 128 ∧ e ≠ 63 ∧ e ≠ 35 ∧ e ≠ 47)) = true := by
    decide +kernel
  have here := all ⟨b.toNat, b.toNat_lt⟩
  have value : UInt8.ofNat b.toNat = b := UInt8.ofNat_toNat
  rw [value] at here
  exact fun e he => of_decide_eq_true (List.all_eq_true.mp here e he)

/-- The bytes of an encoded text, too; a slash only if the text has one. -/
theorem of_mem_encode (h : SuitsTargets isPlain) (hb : b ∈ encode isPlain bs) :
    b < 128 ∧ b ≠ 63 ∧ b ≠ 35 ∧ (47 ∉ bs → b ≠ 47) := by
  obtain ⟨e, he, there⟩ := List.mem_flatMap.mp hb
  cases plain : isPlain e with
  | true =>
    rw [plain] at there
    obtain rfl := List.mem_singleton.mp there
    have visible := (h.visible b plain).2
    refine ⟨UInt8.lt_trans visible (by decide), ?_, ?_, fun slash => ?_⟩
    · rintro rfl
      exact absurd (plain.symm.trans h.query) (by simp)
    · rintro rfl
      exact absurd (plain.symm.trans h.fragment) (by simp)
    · rintro rfl
      exact slash he
  | false =>
    rw [plain] at there
    obtain ⟨ascii, query, fragment, slash⟩ := of_mem_escape e b there
    exact ⟨ascii, query, fragment, fun _ => slash⟩

/-- An encoded text is decoded whatever follows it. -/
theorem decode_encode_append (h : isPlain 37 = false) (bs rest : Bytes) :
    decode (encode isPlain bs ++ rest) = bs ++ decode rest := by
  induction bs with
  | nil => rfl
  | cons b bs ih =>
    have step : encode isPlain (b :: bs)
        = (if isPlain b then [b] else escape b) ++ encode isPlain bs := by
      simp [encode]
    rw [step, List.append_assoc]
    cases plain : isPlain b with
    | true =>
      have differs : b ≠ 37 := by
        rintro rfl
        exact absurd (plain.symm.trans h) (by simp)
      exact (decode_cons differs _).trans (congrArg (b :: ·) ih)
    | false => exact (decode_escape b _).trans (congrArg (b :: ·) ih)

/-- A text without percent signs stands for itself. -/
theorem decode_of_not_mem (h : 37 ∉ bs) : decode bs = bs := by
  induction bs with
  | nil => rfl
  | cons b bs ih =>
    rw [decode_cons (List.ne_of_not_mem_cons h).symm, ih (List.not_mem_of_not_mem_cons h)]

end Http.Percent

namespace Net.Url

open Http.Percent (SuitsTargets)

variable {isPlain : UInt8 → Bool}

theorem ofChars_encoded (h : SuitsTargets isPlain) (cs : List Char) :
    Bytes.ofChars (encoded isPlain cs) = Http.Percent.encode isPlain (Bytes.ofChars cs) :=
  Bytes.ofChars_map_ofNat fun _ hb => (Http.Percent.of_mem_encode h hb).1

theorem of_mem_encoded (h : SuitsTargets isPlain) {cs : List Char} {c : Char}
    (hc : c ∈ encoded isPlain cs) : c ≠ '?' ∧ c ≠ '#' ∧ ('/' ∉ cs → c ≠ '/') := by
  obtain ⟨b, hb, rfl⟩ := List.mem_map.mp hc
  obtain ⟨ascii, query, fragment, slash⟩ := Http.Percent.of_mem_encode h hb
  have value : (Char.ofNat b.toNat).toNat = b.toNat :=
    Text.Utf8.toNat_ofNat (.inl (Nat.lt_trans (UInt8.lt_iff_toNat_lt.mp ascii) (by decide)))
  have byte : ∀ (d : Char) (e : UInt8), d.toNat = e.toNat → Char.ofNat b.toNat = d → b = e := by
    rintro d e same rfl
    exact UInt8.toNat_inj.mp (value ▸ same)
  refine ⟨fun same => query (byte _ _ rfl same), fun same => fragment (byte _ _ rfl same),
    fun none same => slash (Bytes.not_mem_ofChars rfl (by decide) none) (byte _ _ rfl same)⟩

end Net.Url

/-! ## Targets -/

section

variable {isPlain : UInt8 → Bool}

/-- The target of a request for an image: the reference to it, behind the path of the results and
the encoded name of the project. -/
def imageTarget (isPlain : UInt8 → Bool) (p : Project) (id : RecordId)
    (token : Record.CacheToken) : String :=
  "/results/"
    ++ (if p.isGlobal then "" else String.ofList (Net.Url.encoded isPlain p.name.toList) ++ "/")
    ++ Record.imageReference id token

/-- A request that only asks for a target. -/
def plainGet (target : String) : Request :=
  ⟨"GET", (Http.splitTarget target).1, (Http.splitTarget target).2, [], []⟩

/-- What such a target names below the results. -/
def imageRoute (isPlain : UInt8 → Bool) (p : Project) (id : RecordId) : List Char :=
  (if p.isGlobal then [] else Net.Url.encoded isPlain p.name.toList ++ ['/'])
    ++ (Record.imageFileName id).toList

theorem toList_imageTarget (isPlain : UInt8 → Bool) (p : Project) (id : RecordId)
    (token : Record.CacheToken) : (imageTarget isPlain p id token).toList
      = (Destination.resultsPath ++ '/' :: imageRoute isPlain p id)
        ++ '?' :: Decimal.padded 5 token.val := by
  have front : ("/results/" : String).toList = Destination.resultsPath ++ ['/'] := rfl
  have mark : ("?" : String).toList = ['?'] := rfl
  have slash : ("/" : String).toList = ['/'] := rfl
  rw [imageTarget, imageRoute, Record.imageReference]
  split <;> simp [front, mark, slash]

theorem of_mem_imageFileName {id : RecordId} {c : Char}
    (hc : c ∈ (Record.imageFileName id).toList) : c ≠ '?' ∧ c ≠ '#' ∧ c ≠ '%' ∧ c ≠ '/' := by
  obtain ⟨stem, same, -, digits⟩ :=
    isImageFileName_iff.mp (isImageFileName_imageFileName id)
  rw [same, List.mem_append] at hc
  rcases hc with digit | ending
  · have isDigit := List.all_eq_true.mp digits c digit
    refine ⟨?_, ?_, ?_, ?_⟩ <;>
      · rintro rfl
        exact absurd isDigit (by decide)
  · have all : ".png".toList.all
        (fun c => decide (c ≠ '?' ∧ c ≠ '#' ∧ c ≠ '%' ∧ c ≠ '/')) = true := by
      decide
    exact of_decide_eq_true (List.all_eq_true.mp all c ending)

theorem of_mem_imageRoute (h : Http.Percent.SuitsTargets isPlain) {p : Project} {id : RecordId}
    {c : Char} (hc : c ∈ imageRoute isPlain p id) : c ≠ '?' ∧ c ≠ '#' := by
  rw [imageRoute, List.mem_append] at hc
  rcases hc with front | file
  · split at front
    · exact absurd front List.not_mem_nil
    · rcases List.mem_append.mp front with name | slash
      · exact ⟨(Net.Url.of_mem_encoded h name).1, (Net.Url.of_mem_encoded h name).2.1⟩
      · rw [List.mem_singleton.mp slash]
        decide
  · exact ⟨(of_mem_imageFileName file).1, (of_mem_imageFileName file).2.1⟩

/-- The path of a target ends where its query begins. -/
theorem path_of_target {cs ds : List Char} (h : ∀ c ∈ cs, c ≠ '?' ∧ c ≠ '#') {target : String}
    (htarget : target.toList = cs ++ '?' :: ds) :
    (Http.splitTarget target).1 = String.ofList cs := by
  have plain : ∀ c ∈ cs, decide (c ≠ '#') = true := fun c hc => decide_eq_true (h c hc).2
  have path : ∀ c ∈ cs, decide (c ≠ '?') = true := fun c hc => decide_eq_true (h c hc).1
  show String.ofList ((target.toList.takeWhile (· ≠ '#')).takeWhile (· ≠ '?')) = String.ofList cs
  rw [htarget, List.takeWhile_append_of_pos plain, List.takeWhile_cons_of_pos (by decide),
    List.takeWhile_append_of_pos path, List.takeWhile_cons_of_neg (by decide), List.append_nil]

theorem path_plainGet (h : Http.Percent.SuitsTargets isPlain) (p : Project) (id : RecordId)
    (token : Record.CacheToken) : (plainGet (imageTarget isPlain p id token)).path
      = String.ofList (Destination.resultsPath ++ '/' :: imageRoute isPlain p id) := by
  rw [plainGet, path_of_target _ (toList_imageTarget isPlain p id token)]
  intro c hc
  have front : (Destination.resultsPath ++ ['/']).all
      (fun c => decide (c ≠ '?' ∧ c ≠ '#')) = true := by
    decide
  rw [List.append_cons, List.mem_append] at hc
  rcases hc with results | route
  · exact of_decide_eq_true (List.all_eq_true.mp front c results)
  · exact of_mem_imageRoute h route

/-! ## Routes -/

/-- A path below the results leads there: no other path that is answered begins so. -/
theorem ofPath_of_belowResults? {path rest : String}
    (h : Destination.belowResults? path = some rest) :
    Destination.ofPath path = .result rest := by
  have found : (Destination.belowResults? path).isSome = true := by
    rw [h]
    rfl
  unfold Destination.ofPath
  split
  case h_11 => rw [h]
  all_goals exact absurd found (by decide)

theorem belowResults?_append (cs : List Char) :
    Destination.belowResults? (String.ofList (Destination.resultsPath ++ '/' :: cs))
      = some (String.ofList ('/' :: cs)) := by
  simp [Destination.belowResults?]

/-- A file behind a directory of one name. -/
theorem join_component {f g : String} (hf : IsComponent f) (hg : IsComponent g) :
    FilePath.join ⟨f⟩ g = ⟨f ++ "/" ++ g⟩ := by
  have last : f.toList.getLast? ≠ some '/' := fun ends =>
    hf.noSlash (List.mem_of_getLast? ends)
  rw [FilePath.join, if_neg (FilePath.head?_ne_slash hg), if_neg (by simp [hf.notEmpty, last])]

theorem head?_encoded_append (h : Http.Percent.SuitsTargets isPlain) {name : String}
    (hname : IsComponent name) (rest : List Char) :
    (Net.Url.encoded isPlain name.toList ++ rest).head? ≠ some '/' := by
  have bytes := Net.Url.ofChars_encoded h name.toList
  cases encoded : Net.Url.encoded isPlain name.toList with
  | nil =>
    -- Only the empty text is encoded as nothing.
    rw [encoded, Bytes.ofChars_nil] at bytes
    have decoded := Http.Percent.decode_encode h.percent (Bytes.ofString name)
    have nothing : Bytes.ofString name = Bytes.ofString "" := by
      rw [← decoded]
      exact congrArg Http.Percent.decode bytes.symm
    have read := Bytes.toString?_ofString name
    rw [nothing, Bytes.toString?_ofString] at read
    exact absurd (Option.some.inj read ▸ rfl) hname.notEmpty
  | cons c cs =>
    have member : c ∈ Net.Url.encoded isPlain name.toList := encoded ▸ List.mem_cons_self
    have differs := (Net.Url.of_mem_encoded h member).2.2 hname.noSlash
    simpa using differs

/-- What a path is decoded to is taken apart at its slashes, if it neither starts at the top nor
climbs. -/
theorem names?_of_decode {cs : List Char} {text : String} (hfront : cs.head? ≠ some '/')
    (hdecode : Http.Percent.decode (Bytes.ofChars cs) = Bytes.ofString text)
    (habsolute : FilePath.isAbsolute ⟨text⟩ = false) (hup : ".." ∉ FilePath.names ⟨text⟩) :
    Http.StaticFiles.names? (String.ofList ('/' :: cs)) = some (FilePath.names ⟨text⟩) := by
  have front : cs.dropWhile (· = '/') = cs := by
    cases cs with
    | nil => rfl
    | cons c cs =>
      have differs : c ≠ '/' := fun same => hfront (congrArg some same)
      exact List.dropWhile_cons_of_neg (by simpa using differs)
  rw [Http.StaticFiles.names?, String.toList_ofList, List.dropWhile_cons_of_pos (by decide), front,
    hdecode, Bytes.toString?_ofString]
  simp [habsolute, hup]

/-- The name of an image is written as it is. -/
theorem decode_imageFileName (id : RecordId) :
    Http.Percent.decode (Bytes.ofChars (Record.imageFileName id).toList)
      = Bytes.ofString (Record.imageFileName id) := by
  rw [Bytes.ofString]
  exact Http.Percent.decode_of_not_mem <|
    Bytes.not_mem_ofChars (c := '%') rfl (by decide) fun hc => (of_mem_imageFileName hc).2.2.1 rfl

/-- A route is decoded to the name of the project and that of the image. The slash between them is
no part of an encoding, and decoding keeps it. -/
theorem decode_imageRoute (h : Http.Percent.SuitsTargets isPlain) {p : Project}
    (global : p.isGlobal = false) (id : RecordId) :
    Http.Percent.decode (Bytes.ofChars (imageRoute isPlain p id))
      = Bytes.ofString (p.name ++ "/" ++ Record.imageFileName id) := by
  have route : imageRoute isPlain p id
      = Net.Url.encoded isPlain p.name.toList ++ '/' :: (Record.imageFileName id).toList := by
    rw [imageRoute, if_neg (by simp [global]), List.append_assoc]
    rfl
  have slash : String.utf8EncodeChar '/' = [47] := rfl
  have text : (p.name ++ "/" ++ Record.imageFileName id).toList
      = p.name.toList ++ '/' :: (Record.imageFileName id).toList := by
    simp
  rw [route, Bytes.ofChars_append, Net.Url.ofChars_encoded h,
    Http.Percent.decode_encode_append h.percent, Bytes.ofChars_cons, slash,
    List.singleton_append, Http.Percent.decode_cons (by decide), decode_imageFileName,
    Bytes.ofString, Bytes.ofString, text, Bytes.ofChars_append, Bytes.ofChars_cons, slash,
    List.singleton_append]

/-- What a route is decoded to are the names on the way to the image. -/
theorem names?_imageRoute (h : Http.Percent.SuitsTargets isPlain) (p : Project) (id : RecordId) :
    Http.StaticFiles.names? (String.ofList ('/' :: imageRoute isPlain p id))
      = some (p.place [] ++ [Record.imageFileName id]) := by
  have file := isComponent_of_isImageFileName (isImageFileName_imageFileName id)
  cases global : p.isGlobal with
  | true =>
    -- a project without a name has its images in the results directory itself
    have route : imageRoute isPlain p id = (Record.imageFileName id).toList := by
      rw [imageRoute, if_pos global, List.nil_append]
    have names := FilePath.names_component file
    rw [route, Project.place_of_isGlobal global, List.nil_append, ← names]
    refine names?_of_decode (FilePath.head?_ne_slash file) (decode_imageFileName id) ?_ ?_
    · simpa [FilePath.isAbsolute] using FilePath.head?_ne_slash file
    · rw [names]
      simpa using file.notUp.symm
  | false =>
    have name := p.isComponent_name global
    have joined := join_component name file
    have names : FilePath.names ⟨p.name ++ "/" ++ Record.imageFileName id⟩
        = [p.name, Record.imageFileName id] := by
      rw [← joined, FilePath.names_join _ file, FilePath.names_component name]
      rfl
    rw [Project.place_of_not_isGlobal global]
    show _ = some [p.name, Record.imageFileName id]
    rw [← names]
    refine names?_of_decode ?_ (decode_imageRoute h global id) ?_ ?_
    · rw [imageRoute, if_neg (by simp [global]), List.append_assoc]
      exact head?_encoded_append h name _
    · rw [← joined, FilePath.isAbsolute_join _ file]
      simpa [FilePath.isAbsolute] using FilePath.head?_ne_slash name
    · rw [names]
      simpa using ⟨name.notUp.symm, file.notUp.symm⟩

/-! ## Images -/

/-- The file that the names on the way to an image lead to is the image. -/
theorem below_names (a : Archive) (p : Project) (id : RecordId) :
    Http.StaticFiles.below a.root (p.place [] ++ [Record.imageFileName id])
      = a.imagePath p id := by
  rw [Http.StaticFiles.below, Archive.imagePath, Archive.projectDir, Project.place,
    List.foldl_append]
  split
  · rw [List.foldl_nil, List.foldl_cons, List.foldl_nil]
  · rw [List.nil_append, List.foldl_cons, List.foldl_nil, List.foldl_cons, List.foldl_nil]

/-- The names on the way to an image tell the project and the number of the image. -/
theorem eq_of_names {p q : Project} {i j : RecordId} {root : Location}
    (h : p.place root ++ [Record.imageFileName i] = q.place root ++ [Record.imageFileName j]) :
    p = q ∧ i = j := by
  by_cases same : p = q
  · obtain ⟨-, names⟩ := List.append_inj' h rfl
    exact ⟨same, imageFileName_injective (List.singleton_inj.mp names)⟩
  · exact absurd h (Project.place_append_ne same root _ _)

theorem names_imagePath (a : Archive) (p : Project) (id : RecordId) :
    (a.imagePath p id).names = p.place a.root.names ++ [Record.imageFileName id] := by
  have file := isComponent_of_isImageFileName (isImageFileName_imageFileName id)
  rw [Archive.imagePath, FilePath.names_join _ file, Archive.names_projectDir]

/-- A path that leads to a file is answered with it. -/
theorem get_of_readFile {t : FileTree} {dir : FilePath} {path : String} {names : List String}
    {content : Bytes} (hnames : Http.StaticFiles.names? path = some names)
    (hread : t.readFile (Http.StaticFiles.below dir names) = .ok content) (query : Option String) :
    ∃ type, Http.StaticFiles.get t dir path query = .typed 200 type content := by
  obtain ⟨loc, located, found⟩ := readFile_eq_ok_iff.mp hread
  have notDirectory : t.isDirectory (Http.StaticFiles.below dir names) = false := by
    rw [isDirectory, stat, lookUp, located]
    simp only [bind, Except.bind, found]
    rfl
  refine ⟨Http.MediaType.ofPath (Http.StaticFiles.below dir names), ?_⟩
  rw [Http.StaticFiles.get, hnames]
  simp only [notDirectory, Http.StaticFiles.fileAt, hread]
  rfl

/-- Results are asked for without a header or the backend. -/
theorem handle_of_result {c : Config} {r : Request} {path : String} (hmethod : r.method = "GET")
    (hpath : Destination.ofPath r.path = .result path) (x : Circumstances) (t : FileTree) :
    c.handle x r t
      = c.letIn ⟨Http.StaticFiles.get t c.storage.resultsDir path r.query, [], t⟩ := by
  have answered : r.method ≠ "OPTIONS" := by
    rw [hmethod]
    decide
  rw [Config.handle, if_neg answered, Config.route, hpath]
  show c.letIn (c.dispatch x r t (.result path)) = _
  rw [Config.dispatch, Http.StaticFiles.serve, if_pos hmethod]

/-- A request for a reference is answered with the image. -/
theorem handle_imageTarget (h : Http.Percent.SuitsTargets isPlain) (c : Config) {p : Project}
    {id : RecordId} {t : FileTree} {content : Bytes}
    (hread : t.readFile (c.archive.imagePath p id) = .ok content) (x : Circumstances)
    (token : Record.CacheToken) :
    ∃ type, c.handle x (plainGet (imageTarget isPlain p id token)) t
      = c.letIn ⟨.typed 200 type content, [], t⟩ := by
  have destination : Destination.ofPath (plainGet (imageTarget isPlain p id token)).path
      = .result (String.ofList ('/' :: imageRoute isPlain p id)) := by
    rw [path_plainGet h p id token]
    exact ofPath_of_belowResults? (belowResults?_append _)
  have image : t.readFile (Http.StaticFiles.below c.storage.resultsDir
      (p.place [] ++ [Record.imageFileName id])) = .ok content := by
    have root : c.storage.resultsDir = c.archive.root := rfl
    rw [root, below_names]
    exact hread
  obtain ⟨type, served⟩ := get_of_readFile (names?_imageRoute h p id) image
    (plainGet (imageTarget isPlain p id token)).query
  exact ⟨type, by rw [handle_of_result rfl destination, served]⟩

/-- The path of a reference tells the image: the names that it is decoded to lead there. -/
theorem eq_of_path_plainGet {isPlain' : UInt8 → Bool} (h : Http.Percent.SuitsTargets isPlain)
    (h' : Http.Percent.SuitsTargets isPlain') {p q : Project} {i j : RecordId}
    {token token' : Record.CacheToken}
    (same : (plainGet (imageTarget isPlain p i token)).path
      = (plainGet (imageTarget isPlain' q j token')).path) : p = q ∧ i = j := by
  rw [path_plainGet h, path_plainGet h'] at same
  have routes : String.ofList ('/' :: imageRoute isPlain p i)
      = String.ofList ('/' :: imageRoute isPlain' q j) :=
    congrArg String.ofList (List.append_cancel_left (String.ofList_injective same))
  have names := names?_imageRoute h p i
  rw [routes, names?_imageRoute h' q j] at names
  exact eq_of_names (Option.some.inj names).symm

/-- So does the path of the file. -/
theorem eq_of_imagePath {a : Archive} {p q : Project} {i j : RecordId}
    (same : a.imagePath p i = a.imagePath q j) : p = q ∧ i = j := by
  have files := congrArg FilePath.names same
  rw [names_imagePath, names_imagePath] at files
  exact eq_of_names files

/-- A request for a reference is answered with the image, whichever suitable characters of the name
of the project are encoded, and with which token. The paths of two references are the same only if
they are references to the same image, and so are the paths of the files. -/
theorem image_of_reference (h : Http.Percent.SuitsTargets isPlain) (c : Config) (p : Project)
    (id : RecordId) (token : Record.CacheToken) :
    (∀ t content, t.readFile (c.archive.imagePath p id) = .ok content → ∀ x,
      (c.handle x (plainGet (imageTarget isPlain p id token)) t).response.status = 200 ∧
      (c.handle x (plainGet (imageTarget isPlain p id token)) t).response.body = content) ∧
    (∀ isPlain' q id' token', Http.Percent.SuitsTargets isPlain' →
      (plainGet (imageTarget isPlain p id token)).path
        = (plainGet (imageTarget isPlain' q id' token')).path → p = q ∧ id = id') ∧
    ∀ q id', c.archive.imagePath p id = c.archive.imagePath q id' → p = q ∧ id = id' := by
  refine ⟨fun t content hread x => ?_, fun _ q id' token' h' same => eq_of_path_plainGet h h' same,
    fun q id' same => eq_of_imagePath same⟩
  obtain ⟨type, answered⟩ := handle_imageTarget h c hread x token
  rw [answered]
  exact ⟨Config.status_withOrigins c _, Config.body_withOrigins c _⟩

end

/-- The characters that no encoding needs to touch: letters, digits and four marks. -/
def isUnreserved (b : UInt8) : Bool :=
  (48 ≤ b && b ≤ 57) || (65 ≤ b && b ≤ 90) || (97 ≤ b && b ≤ 122) || [45, 46, 95, 126].contains b

theorem suitsTargets_isUnreserved : Http.Percent.SuitsTargets isUnreserved where
  visible := by
    have all : ∀ n : Fin 256, isUnreserved (UInt8.ofNat n) = true →
        32 < UInt8.ofNat n ∧ UInt8.ofNat n < 127 := by
      decide +kernel
    intro b plain
    have value : UInt8.ofNat b.toNat = b := UInt8.ofNat_toNat
    have visible := all ⟨b.toNat, b.toNat_lt⟩
    rw [value] at visible
    exact visible plain
  percent := by decide
  query := by decide
  fragment := by decide

/-- A project whose name has a space, a percent sign and a question mark. -/
def saleProject : Project := ⟨"50% off?", by decide⟩

/-- Results with an image of that project whose number has six digits. -/
def saleResults : FileTree where
  entries := [(["results"], .directory), (["results", "50% off?"], .directory),
    (["results", "50% off?", "123456.png"], .file [1, 2, 3])]
  workingDirectory := []

theorem image_of_reference_sale :
    Http.Percent.SuitsTargets isUnreserved ∧
      imageTarget isUnreserved saleProject 123456 Archive.zeroToken
        = "/results/50%25%20off%3F/123456.png?00000" ∧
      saleResults.readFile (localGateway.archive.imagePath saleProject 123456) = .ok [1, 2, 3] ∧
      (localGateway.handle answering
        (plainGet (imageTarget isUnreserved saleProject 123456 Archive.zeroToken))
        saleResults).response.body = [1, 2, 3] := by
  have image : saleResults.readFile (localGateway.archive.imagePath saleProject 123456)
      = .ok [1, 2, 3] := by
    decide +kernel
  have answered := (image_of_reference suitsTargets_isUnreserved localGateway saleProject 123456
    Archive.zeroToken).1 saleResults [1, 2, 3] image answering
  exact ⟨suitsTargets_isUnreserved, by decide +kernel, image, answered.2⟩

end ImageGateway
