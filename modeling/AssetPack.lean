import AssetPack.Asset.Basic
import AssetPack.Asset.Catalog
import AssetPack.Asset.Density
import AssetPack.Asset.Identifier
import AssetPack.BuildMode
import AssetPack.CommandLine.Options
import AssetPack.CommandLine.Parse
import AssetPack.Config.Basic
import AssetPack.Config.Load
import AssetPack.Config.Read
import AssetPack.Config.Warning
import AssetPack.Crunch.Cruncher
import AssetPack.Crunch.Locate
import AssetPack.Decimal.Binary64
import AssetPack.Decimal.Shortest
import AssetPack.Digest.ContentHash
import AssetPack.Digest.Sha384
import AssetPack.Emit.Generator
import AssetPack.Emit.ImageTemplates
import AssetPack.Emit.Images
import AssetPack.Emit.Shaders
import AssetPack.Emit.Template
import AssetPack.Emit.Unsupported
import AssetPack.Error
import AssetPack.Files.Error
import AssetPack.Files.FileSystem
import AssetPack.Files.Memory
import AssetPack.Files.Path
import AssetPack.Fingerprint
import AssetPack.Generate.Images
import AssetPack.Generate.Shaders
import AssetPack.Generate.Survey
import AssetPack.Glsl.Comment
import AssetPack.Glsl.Minify
import AssetPack.Glsl.Separator
import AssetPack.Host.Disk
import AssetPack.Host.Expansion
import AssetPack.Host.Files
import AssetPack.Host.Machine
import AssetPack.Host.Programs
import AssetPack.Host.Script
import AssetPack.Host.Shell
import AssetPack.Ignore.Expression
import AssetPack.Ignore.Glob
import AssetPack.Ignore.GlobSyntax
import AssetPack.Ignore.Pattern
import AssetPack.Ignore.Rules
import AssetPack.Java.ClassName
import AssetPack.Java.Literal
import AssetPack.Java.Name
import AssetPack.Job
import AssetPack.Log
import AssetPack.Main
import AssetPack.Outcome
import AssetPack.Program
import AssetPack.Proofs.Glsl.Idempotence
import AssetPack.Proofs.Glsl.Markers
import AssetPack.Proofs.Glsl.NormalForm
import AssetPack.Proofs.Glsl.Operators
import AssetPack.Proofs.Glsl.Pieces
import AssetPack.Proofs.Glsl.Positions
import AssetPack.Proofs.Glsl.SpaceMinimal
import AssetPack.Proofs.Glsl.Spacing
import AssetPack.Proofs.Glsl.Variants
import AssetPack.Proofs.Text.Lines
import AssetPack.Scan
import AssetPack.Text.Base64Url
import AssetPack.Text.Blank
import AssetPack.Text.EditDistance
import AssetPack.Text.Lines
import AssetPack.Text.Numeral
import AssetPack.Text.Quoted
import AssetPack.Text.Reader
import AssetPack.Text.Split
import AssetPack.Text.Unprintable
import AssetPack.Text.Utf8
import AssetPack.Text.Word
import AssetPack.Toml.Document
import AssetPack.Toml.Numbers
import AssetPack.Toml.Strings
import AssetPack.Toml.Value
import AssetPack.Proofs.Java.ClassName
import AssetPack.Proofs.Java.Lexer
import AssetPack.Proofs.Java.Literal
import AssetPack.Proofs.Text.PrefixCode
import AssetPack.Proofs.Text.Quoted
import AssetPack.Proofs.Text.Utf8
import AssetPack.Proofs.Digest.ContentHash
import AssetPack.Proofs.Fingerprint
import AssetPack.Proofs.Files.Path
import AssetPack.Proofs.Files.Memory
import AssetPack.Proofs.Job
import AssetPack.Proofs.Marker
import AssetPack.Proofs.Generate.Run
import AssetPack.Proofs.Generate.Current
import AssetPack.Proofs.Generate.Again
import AssetPack.Proofs.Generate.Failure
import AssetPack.Proofs.Generate.Plan
import AssetPack.Proofs.Config.Tool
import AssetPack.Proofs.Text.Utf8Decode
import AssetPack.Proofs.Text.ByteOrder
import AssetPack.Proofs.Asset.Density
import AssetPack.Proofs.Emit.Names
import AssetPack.Proofs.Glsl.ReleaseForm
import AssetPack.Proofs.Glsl.Deletion
import AssetPack.Proofs.Glsl.Scanner
import AssetPack.Proofs.Scan.Exact
import AssetPack.Proofs.Text.Base64Url
import AssetPack.Proofs.Asset.Identifier
import AssetPack.Proofs.Asset.Catalog
import AssetPack.Proofs.Asset.Operations
import AssetPack.Proofs.Emit.Template
import AssetPack.Proofs.Emit.Header
import AssetPack.Proofs.Emit.Shaders
import AssetPack.Proofs.Emit.Images
import AssetPack.Proofs.Emit.Members
import AssetPack.Proofs.Generate.Crunching
import AssetPack.Proofs.Files.Listing
import AssetPack.Proofs.Host.Disk
import AssetPack.Proofs.Generate.Selection
import AssetPack.Proofs.Emit.ImageLiteral
import AssetPack.Proofs.Generate.SkipCheck
import AssetPack.Proofs.Ignore.Rules
import AssetPack.Proofs.Ignore.Composition
import AssetPack.Proofs.Ignore.Acceptance
import AssetPack.Proofs.Crunch.Locate
import AssetPack.Proofs.Config.Density
import AssetPack.Proofs.Emit.Densities
import AssetPack.Proofs.Generate.Densities
import AssetPack.Proofs.Text.EditDistance
import AssetPack.Proofs.Text.TwoRows
import AssetPack.Proofs.Text.Reader
import AssetPack.Proofs.Toml.Readers
import AssetPack.Proofs.Toml.Paths
import AssetPack.Proofs.Toml.Written
import AssetPack.Proofs.Config.Warning
import AssetPack.Proofs.Config.Suggestion
import AssetPack.Proofs.Glsl.ScannerPieces
