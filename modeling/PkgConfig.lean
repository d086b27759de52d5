import PkgConfig.CString
import PkgConfig.Version
import PkgConfig.VersionOrder
import PkgConfig.VersionSegments
import PkgConfig.Package
import PkgConfig.Merge
import PkgConfig.Verify
import PkgConfig.LineReader
import PkgConfig.ModuleList
import PkgConfig.Parse
import PkgConfig.Flags
import PkgConfig.Fields
import PkgConfig.ShellEscape
import PkgConfig.Substitution
import PkgConfig.LineEffects
import PkgConfig.Descriptor
import PkgConfig.Relocation
import PkgConfig.Strictness
import PkgConfig.Registry
import PkgConfig.Resolution
import PkgConfig.Loading
