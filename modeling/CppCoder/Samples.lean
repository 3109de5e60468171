import CppCoder.Support.Disk

/-! The codebases that the runs on fixed inputs in other modules are about. -/

namespace CppCoder.Samples
open Support Utf8 Paths Support.Tree Disk

def r : Name := .ofAscii "r" (by decide)

def o : Name := .ofAscii "o" (by decide)

def aCpp : Name := .ofAscii "a.cpp" (by decide)

def bCpp : Name := .ofAscii "b.cpp" (by decide)

/-- A codebase `/r` with two files that mention a cache. -/
def cached : FileSystem where
  tree := .sub r (.leaf aCpp (.file (ascii "cache") true)
    (.leaf bCpp (.file (ascii "cache") true) .nil)) .nil
  distinct := by decide
  cwd := []

end CppCoder.Samples
