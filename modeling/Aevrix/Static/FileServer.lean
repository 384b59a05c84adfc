import Aevrix.Filesystem.Tree

/-!
# The static file server (`static_file_server.h`, `static_file_server.cpp`)

A request target is decoded, made relative to the document root, joined to the root again,
checked and read. `none` is an exception: `normalizePath` reports it as a bad request,
`validatePath` as a path that is not allowed, elsewhere it leaves `serveFile`.

Whatever the target turns into on its way, the check looks at the path that is read, and in
its canonical form (`served_inside`).
-/

namespace Aevrix.Static
open Aevrix.Filesystem

def isHexDigit (c : Byte) : Bool :=
  isDigit c || (decide (65 ≤ c) && decide (c ≤ 70)) || (decide (97 ≤ c) && decide (c ≤ 102))

def hexDigitValue (c : Byte) : ℕ :=
  if isDigit c then c.toNat - 48 else if c ≤ 70 then c.toNat - 55 else c.toNat - 87

/-- The digits `std::stoi` reads in base 16, behind an optional `0x`. -/
def stoiHexDigits (text : Bytes) : Option ℤ :=
  let digits := match text with
    | 48 :: x :: d :: rest =>
      if (x == 120 || x == 88) && isHexDigit d then (d :: rest).takeWhile isHexDigit
      else text.takeWhile isHexDigit
    | _ => text.takeWhile isHexDigit
  if digits = [] then none
  else some (digits.foldl (fun n c => n * 16 + hexDigitValue c) 0 : ℕ)

/-- `std::stoi` in base 16, for the two characters of an escape. -/
def stoiHex (text : Bytes) : Option ℤ := match text.dropWhile isSpace with
  | 45 :: t => (stoiHexDigits t).map fun n => -n
  | 43 :: t => stoiHexDigits t
  | t => stoiHexDigits t

/-- The loop of `url_decode`: an escape counts where two characters follow it. -/
def decodeLoop : Bytes → Bytes
  | [] => []
  | 37 :: h :: l :: rest => match stoiHex [h, l] with
    | some code => UInt8.ofInt code :: decodeLoop rest
    | none => 37 :: decodeLoop (h :: l :: rest)
  | c :: rest => (if c = 43 then 32 else c) :: decodeLoop rest

/-- `url_decode` (`static_file_server.cpp:178-209`): what still has a percent sign is
rejected. -/
def urlDecode (encoded : Bytes) : Bytes :=
  let result := decodeLoop encoded
  if 37 ∈ result then [] else result

/-- `mime_types_` (`static_file_server.cpp:317-365`). -/
def mimeTypes : List (Bytes × Bytes) :=
  [(ascii ".html", ascii "text/html"), (ascii ".htm", ascii "text/html"),
    (ascii ".css", ascii "text/css"), (ascii ".js", ascii "application/javascript"),
    (ascii ".json", ascii "application/json"), (ascii ".xml", ascii "application/xml"),
    (ascii ".jpg", ascii "image/jpeg"), (ascii ".jpeg", ascii "image/jpeg"),
    (ascii ".png", ascii "image/png"), (ascii ".gif", ascii "image/gif"),
    (ascii ".svg", ascii "image/svg+xml"), (ascii ".ico", ascii "image/x-icon"),
    (ascii ".webp", ascii "image/webp"), (ascii ".woff", ascii "font/woff"),
    (ascii ".woff2", ascii "font/woff2"), (ascii ".ttf", ascii "font/ttf"),
    (ascii ".otf", ascii "font/otf"), (ascii ".eot", ascii "application/vnd.ms-fontobject"),
    (ascii ".txt", ascii "text/plain"), (ascii ".md", ascii "text/markdown"),
    (ascii ".csv", ascii "text/csv"), (ascii ".pdf", ascii "application/pdf"),
    (ascii ".zip", ascii "application/zip"), (ascii ".tar", ascii "application/x-tar"),
    (ascii ".gz", ascii "application/gzip"), (ascii ".mp3", ascii "audio/mpeg"),
    (ascii ".wav", ascii "audio/wav"), (ascii ".ogg", ascii "audio/ogg"),
    (ascii ".mp4", ascii "video/mp4"), (ascii ".webm", ascii "video/webm"),
    (ascii ".avi", ascii "video/x-msvideo"), ([], ascii "application/octet-stream")]

/-- `path::extension`: from the last dot of the file name on, unless the name starts there. -/
def extension (p : Path) : Bytes :=
  let name := p.names.getLast?.getD []
  let suffix := name.rtakeWhile (· != 46)
  if name = dot ∨ name = dotdot ∨ name.length ≤ suffix.length + 1 then [] else 46 :: suffix

/-- `detect_mime_type` (`static_file_server.cpp:257-272`). -/
def detectMimeType (p : Path) : Bytes :=
  (mimeTypes.lookup ((extension p).map toLower)).getD (ascii "application/octet-stream")

/-- The document root as an absolute path; it is a directory. -/
structure StaticFileServer (t : Tree) where
  documentRoot : List Name
  isDirectory : ∃ l, t.status ⟨true, documentRoot⟩ = .found l ∧ t.node l = some .directory

namespace StaticFileServer
variable {t : Tree}

/-- The constructor (`static_file_server.cpp:18-55`). -/
def construct (t : Tree) (documentRoot : Bytes) : Option (StaticFileServer t) :=
  match t.absolute (.parse documentRoot) with
  | none => none
  | some p => match hstatus : t.status ⟨true, p.names⟩ with
    | .found l =>
      if hnode : t.node l = some .directory then some ⟨p.names, l, hstatus, hnode⟩ else none
    | _ => none

def rootPath (s : StaticFileServer t) : Path := ⟨true, s.documentRoot⟩

/-- `normalize_path` (`static_file_server.cpp:136-176`). -/
def normalizePath (s : StaticFileServer t) (path : Bytes) : Option Bytes :=
  let decoded := urlDecode path
  if decoded = [] then none
  else
    let normalized := if decoded.head? = some 47 then decoded.drop 1 else decoded
    let normalized := if normalized = [] then ascii "index.html" else normalized
    match t.absolute (s.rootPath.append (.parse normalized)) with
    | none => none
    | some absolutePath => match t.relative absolutePath s.rootPath with
      | none => none
      | some relativePath => some (relativePath.text.map fun c => if c = 92 then 47 else c)

/-- `resolve_path` (`static_file_server.cpp:211-222`). -/
def resolvePath (s : StaticFileServer t) (requestTarget : Bytes) : Option Path :=
  (t.absolute (s.rootPath.append (.parse requestTarget))).map Path.lexicallyNormal

/-- `validate_path` (`static_file_server.cpp:224-255`). -/
def validatePath (s : StaticFileServer t) (resolvedPath : Path) : Bool :=
  match (t.absolute resolvedPath).bind t.weaklyCanonical,
    (t.absolute s.rootPath).bind t.weaklyCanonical with
  | some absResolved, some absRoot => match t.relative absResolved absRoot with
    | some relativePath =>
      if relativePath.names.head? = some dotdot then false
      else !relativePath.names.contains dotdot
    | none => false
  | _, _ => false

/-- `read_file` (`static_file_server.cpp:274-307`); `readable` says which files can be read. -/
def readFile (t : Tree) (readable : List Name → Bool) (p : Path) : Bytes := match t.status p with
  | .found l => match t.node l with
    | some (.regular content) => if readable l then content else []
    | _ => []
  | _ => []

/-- `serve_file` (`static_file_server.cpp:57-114`). -/
def serveFile (s : StaticFileServer t) (readable : List Name → Bool) (requestTarget : Bytes) :
    Option (Bytes × Bytes × ℕ) :=
  let answer (status : ℕ) : Option (Bytes × Bytes × ℕ) := some ([], ascii "text/plain", status)
  match s.normalizePath requestTarget with
  | none => answer 400
  | some normalized => match s.resolvePath normalized with
    | none => none
    | some resolvedPath =>
      if s.validatePath resolvedPath = false then answer 403
      else match t.status resolvedPath with
        | .failed => none
        | .notFound => answer 404
        | .found l =>
          if t.node l = some .directory then answer 403
          else match t.node l with
            | some (.regular _) =>
              let content := readFile t readable resolvedPath
              if content = [] then answer 500
              else some (content, detectMimeType resolvedPath, 200)
            | _ => answer 403

/-! ### Containment -/

theorem rooted_lexicallyNormal (p : Path) : p.lexicallyNormal.rooted = p.rooted := by
  simp only [Path.lexicallyNormal]
  split
  · rfl
  split
  · rfl
  split <;> rfl

theorem rooted_absolute {p q : Path} (h : t.absolute p = some q) : q.rooted = true := by
  unfold Tree.absolute at h
  split at h
  · rename_i hrooted
    rw [← Option.some.inj h]
    exact hrooted
  · rename_i hrooted
    split at h
    · cases h
    · rw [← Option.some.inj h, Path.append, if_neg hrooted]
      split <;> rfl

theorem absolute_rooted {p : Path} (h : p.rooted = true) : t.absolute p = some p := by
  rw [Tree.absolute, if_pos h]

theorem rooted_resolvePath {s : StaticFileServer t} {target : Bytes} {p : Path}
    (h : s.resolvePath target = some p) : p.rooted = true := by
  obtain ⟨q, hq, rfl⟩ := Option.map_eq_some_iff.mp h
  rw [rooted_lexicallyNormal]
  exact rooted_absolute hq

theorem validatePath_inside {s : StaticFileServer t} {names l root : List Name}
    (h : s.validatePath ⟨true, names⟩ = true) (hfound : t.status ⟨true, names⟩ = .found l)
    (hroot : t.status s.rootPath = .found root) : root <+: l := by
  have hlocation := Tree.found_location hfound
  have hrootLocation := Tree.found_location hroot
  obtain ⟨n, hn, -⟩ := id hrootLocation
  rw [validatePath, absolute_rooted rfl, absolute_rooted rfl, Option.bind_some, Option.bind_some,
    Tree.weaklyCanonical_found hfound, rootPath, Tree.weaklyCanonical_found hroot] at h
  dsimp only at h
  rw [Tree.relative_found (Tree.status_location hlocation)
    (Tree.status_location hrootLocation)] at h
  dsimp only at h
  split at h
  · cases h
  · refine Path.lexicallyRelative_inside (Tree.names_valid (by rw [hn]; rfl)) ?_
    simpa using h

/-- A file with nothing in it is not served. -/
theorem serveFile_content {s : StaticFileServer t} {readable : List Name → Bool}
    {requestTarget content mimeType : Bytes}
    (h : s.serveFile readable requestTarget = some (content, mimeType, 200)) : content ≠ [] := by
  unfold serveFile at h
  dsimp only at h
  split at h
  · cases h
  split at h
  · cases h
  split at h
  · cases h
  split at h
  · cases h
  · cases h
  split at h
  · cases h
  split at h
  · split at h
    · cases h
    · next hne =>
      obtain ⟨rfl, -⟩ := Prod.mk.inj (Option.some.inj h)
      exact hne
  · cases h

/-- A file that is served is inside the document root: its canonical path goes on from the
root's. -/
theorem served_inside (s : StaticFileServer t) (readable : List Name → Bool)
    (requestTarget content mimeType : Bytes)
    (h : s.serveFile readable requestTarget = some (content, mimeType, 200)) :
    ∃ normalized resolved l root, s.normalizePath requestTarget = some normalized ∧
      s.resolvePath normalized = some resolved ∧
      t.canonical resolved = some ⟨true, l⟩ ∧ t.canonical s.rootPath = some ⟨true, root⟩ ∧
      root <+: l ∧ t.node l = some (.regular content) := by
  obtain ⟨root, hroot, -⟩ := s.isDirectory
  simp only [serveFile] at h
  split at h
  · simp at h
  rename_i normalized hnormalized
  split at h
  · cases h
  rename_i resolved hresolved
  split at h
  · simp at h
  rename_i hvalid
  rw [Bool.not_eq_false] at hvalid
  split at h
  · cases h
  · simp at h
  rename_i l hfound
  split at h
  · simp at h
  split at h
  · rename_i stored hnode
    split at h
    · simp at h
    · rename_i hcontent
      simp only [Option.some.injEq, Prod.mk.injEq, and_true] at h
      have hrooted := rooted_resolvePath hresolved
      obtain ⟨rooted, names⟩ := resolved
      obtain rfl : rooted = true := hrooted
      refine ⟨normalized, _, l, root, hnormalized, hresolved, ?_, ?_,
        validatePath_inside hvalid hfound hroot, ?_⟩
      · rw [Tree.canonical, hfound]
      · rw [Tree.canonical, rootPath, hroot]
      · simp only [readFile, hfound, hnode] at h hcontent
        split at h
        · rw [hnode, h.1]
        · rename_i hread
          rw [if_neg hread] at hcontent
          exact absurd rfl hcontent
  · simp at h

/-- A root with a page, a link to the page and a link out of the root. -/
def sampleTree : Tree where
  entries := [([ascii "srv"], .directory), ([ascii "srv", ascii "key"], .regular (ascii "secret")),
    ([ascii "srv", ascii "www"], .directory),
    ([ascii "srv", ascii "www", ascii "index.html"], .regular (ascii "hello")),
    ([ascii "srv", ascii "www", ascii "home"], .symlink (ascii "./index.html")),
    ([ascii "srv", ascii "www", ascii "out"], .symlink (ascii "../key"))]
  cwd := [ascii "srv"]
  maxLinks := 40
  placed := by decide

def sampleServer : StaticFileServer sampleTree where
  documentRoot := [ascii "srv", ascii "www"]
  isDirectory := ⟨[ascii "srv", ascii "www"], by decide, by decide⟩

theorem served_inside_link : ∃ normalized resolved l root,
    sampleServer.normalizePath (ascii "/h%6fme") = some normalized ∧
      sampleServer.resolvePath normalized = some resolved ∧
      sampleTree.canonical resolved = some ⟨true, l⟩ ∧
      sampleTree.canonical sampleServer.rootPath = some ⟨true, root⟩ ∧
      root <+: l ∧ sampleTree.node l = some (.regular (ascii "hello")) :=
  served_inside sampleServer (fun _ => true) (ascii "/h%6fme") (ascii "hello")
    (ascii "text/html") (by decide +kernel)

example : (sampleServer.serveFile (fun _ => true) (ascii "/out")).map (fun r => r.2.2) =
    some 403 := by decide +kernel

end StaticFileServer
end Aevrix.Static
