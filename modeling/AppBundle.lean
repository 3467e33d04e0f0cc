import AppBundle.Abi
import AppBundle.Archive.Header
import AppBundle.Archive.Reading
import AppBundle.Archive.Writing
import AppBundle.Blake3
import AppBundle.Bundle
import AppBundle.BundleSpec
import AppBundle.CommandLine.Arguments
import AppBundle.CommandLine.Failure
import AppBundle.CommandLine.Help
import AppBundle.CommandLine.Reading
import AppBundle.CommandLine.Report
import AppBundle.CommandLine.Run
import AppBundle.Density
import AppBundle.Device
import AppBundle.Dimension
import AppBundle.Document.Json
import AppBundle.Document.JsonReading
import AppBundle.Files.Path
import AppBundle.Files.Tree
import AppBundle.Files.Volume
import AppBundle.Generate
import AppBundle.Language
import AppBundle.Main
import AppBundle.OrderedMap
import AppBundle.Proofs.ArchiveFields
import AppBundle.Proofs.ArchiveNames
import AppBundle.Proofs.ArchivedEntries
import AppBundle.Proofs.BundleSplits
import AppBundle.Proofs.ByteOrder
import AppBundle.Proofs.CheckedManifests
import AppBundle.Proofs.ChosenVariants
import AppBundle.Proofs.CombinedTargeting
import AppBundle.Proofs.CommonEntries
import AppBundle.Proofs.Conflicts
import AppBundle.Proofs.Coordinates
import AppBundle.Proofs.DeclaredMetadata
import AppBundle.Proofs.DensityChoice
import AppBundle.Proofs.DensityMatch
import AppBundle.Proofs.DensityParts
import AppBundle.Proofs.DevicePackages
import AppBundle.Proofs.DeviceShard
import AppBundle.Proofs.DeviceSplits
import AppBundle.Proofs.DexNumbers
import AppBundle.Proofs.DexOrder
import AppBundle.Proofs.DirectoryTrees
import AppBundle.Proofs.DistinctPackages
import AppBundle.Proofs.Division
import AppBundle.Proofs.FaithfulArchives
import AppBundle.Proofs.FirstOccurrences
import AppBundle.Proofs.FoundFiles
import AppBundle.Proofs.FusedEntries
import AppBundle.Proofs.GroupedSplits
import AppBundle.Proofs.Identities
import AppBundle.Proofs.ImagePackages
import AppBundle.Proofs.ImageSplits
import AppBundle.Proofs.InternalErrors
import AppBundle.Proofs.JoinedTexts
import AppBundle.Proofs.JsonRoundTrips
import AppBundle.Proofs.Labels
import AppBundle.Proofs.LanguageCodes
import AppBundle.Proofs.LanguageDivision
import AppBundle.Proofs.LanguagePackages
import AppBundle.Proofs.LoadedBundles
import AppBundle.Proofs.MergeSuccess
import AppBundle.Proofs.MergedSplits
import AppBundle.Proofs.Merging
import AppBundle.Proofs.ModuleContent
import AppBundle.Proofs.ModuleDirectories
import AppBundle.Proofs.ModuleOrder
import AppBundle.Proofs.ModuleParts
import AppBundle.Proofs.ModuleSplits
import AppBundle.Proofs.NumberedDex
import AppBundle.Proofs.OwnDensity
import AppBundle.Proofs.PackageFiles
import AppBundle.Proofs.PartTargeting
import AppBundle.Proofs.PathResolution
import AppBundle.Proofs.PathsBelow
import AppBundle.Proofs.PlainPaths
import AppBundle.Proofs.Plan
import AppBundle.Proofs.PlanFailures
import AppBundle.Proofs.PlannedShards
import AppBundle.Proofs.PurePipelines
import AppBundle.Proofs.ReadArchives
import AppBundle.Proofs.RefusedManifests
import AppBundle.Proofs.RefusedPaths
import AppBundle.Proofs.RepeatedPipelines
import AppBundle.Proofs.ShardEntries
import AppBundle.Proofs.SplitterParts
import AppBundle.Proofs.StageOrder
import AppBundle.Proofs.SystemImage
import AppBundle.Proofs.Tiling
import AppBundle.Proofs.UndividedEntries
import AppBundle.Proofs.VolumeLocations
import AppBundle.Proofs.Without64Bit
import AppBundle.Proofs.WrittenPackages
import AppBundle.Shard
import AppBundle.Sharding
import AppBundle.Splitter
import AppBundle.Toml.Reading
import AppBundle.Toml.Scalar
import AppBundle.Toml.Tables
