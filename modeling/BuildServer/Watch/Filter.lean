import BuildServer.Path.FileUri
import BuildServer.Watch.Glob

namespace BuildServer.Watch

def excluded : List String :=
  ["**/.build/**", "**/deriveddata/**", "**/modulecache/**", "**/index.noindex/**"]

def relevantExtensions : List String :=
  ["swift", "h", "hh", "hpp", "m", "mm", "c", "cc", "cpp", "cxx", "pch", "modulemap", "metal",
   "swiftinterface", "swiftmodule", "swiftpm", "xcodeproj", "pbxproj", "xcscheme", "xcconfig",
   "plist", "resolved"]

def relevantNames : String :=
  "*.\x7b" ++ String.intercalate "," relevantExtensions ++ "\x7d"

def globs : List String :=
  ["**/*.swift", "**/*.h", "**/*.m", "**/*.mm", "**/*.c", "**/*.cpp",
   "**/*.xcodeproj/project.pbxproj", ".bsp/xcode-bsp.json"]

def isRelevant (uri : String) : Bool :=
  match FileUri.path? uri with
  | none => true
  | some path =>
    let path := Path.normalize path
    if excluded.any (Glob.covers true · path) then false
    else if (Path.extension? path).isNone then true
    else (Path.fileName? path).any (Glob.covers true relevantNames)

def hasRelevant (uris : List String) : Bool :=
  uris.any isRelevant

end BuildServer.Watch
