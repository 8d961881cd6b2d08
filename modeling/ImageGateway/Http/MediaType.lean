import ImageGateway.Storage.FilePath

/-!
# Media types of files

The type of a file follows from the extension of its name, whatever the case of its letters.
-/

namespace ImageGateway.Http.MediaType

open Storage (FilePath)

/-- The type of bytes about which nothing is known. -/
def unknown : String := "application/octet-stream"

/-- The extensions with a type. -/
def table : List (String × String) := [
  ("aac", "audio/aac"), ("apng", "image/apng"), ("avi", "video/x-msvideo"),
  ("avif", "image/avif"), ("bmp", "image/bmp"), ("bz2", "application/x-bzip2"),
  ("conf", "text/plain"), ("css", "text/css"), ("csv", "text/csv"),
  ("eot", "application/vnd.ms-fontobject"), ("flac", "audio/flac"), ("gif", "image/gif"),
  ("gz", "application/x-gzip"), ("htm", "text/html"), ("html", "text/html"),
  ("ico", "image/x-icon"), ("ini", "text/plain"), ("jpe", "image/jpeg"),
  ("jpeg", "image/jpeg"), ("jpg", "image/jpeg"), ("js", "text/javascript"),
  ("json", "application/json"), ("jxl", "image/jxl"), ("log", "text/plain"),
  ("m4a", "audio/m4a"), ("m4v", "video/x-m4v"), ("md", "text/markdown"),
  ("mid", "audio/mid"), ("mjs", "text/javascript"), ("mkv", "video/x-matroska"),
  ("mov", "video/quicktime"), ("mp3", "audio/mpeg"), ("mp4", "video/mp4"),
  ("mpeg", "video/mpeg"), ("mpg", "video/mpeg"), ("oga", "audio/ogg"), ("ogg", "audio/ogg"),
  ("ogv", "video/ogg"), ("opus", "audio/ogg"), ("otf", "font/otf"), ("pdf", "application/pdf"),
  ("png", "image/png"), ("ps", "application/postscript"), ("rtf", "application/rtf"),
  ("svg", "image/svg+xml"), ("svgz", "image/svg+xml"), ("tar", "application/x-tar"),
  ("tga", "image/x-targa"), ("tif", "image/tiff"), ("tiff", "image/tiff"),
  ("toml", "text/x-toml"), ("tsv", "text/tab-separated-values"), ("ttf", "font/ttf"),
  ("txt", "text/plain"), ("wasm", "application/wasm"), ("wav", "audio/wav"),
  ("weba", "audio/webm"), ("webm", "video/webm"), ("webmanifest", "application/manifest+json"),
  ("webp", "image/webp"), ("woff", "font/woff"), ("woff2", "font/woff2"),
  ("xhtml", "application/xhtml+xml"), ("xml", "text/xml"), ("yaml", "text/x-yaml"),
  ("yml", "text/x-yaml"), ("zip", "application/zip")]

/-- What follows the last point of a name, unless that is its first character. -/
def extension? (name : String) : Option String :=
  let reversed := name.toList.reverse
  let ending := reversed.takeWhile (· ≠ '.')
  match reversed.drop ending.length with
  | _ :: _ :: _ => some (String.ofList ending.reverse)
  | _ => none

/-- The type of the file that a path leads to. -/
def ofPath (p : FilePath) : String :=
  match (p.names.getLast?.bind extension?).bind fun e => table.lookup e.toLower with
  | some type => type
  | none => unknown

end ImageGateway.Http.MediaType
